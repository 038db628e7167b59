import AsioMsg.ClientPackages
import AsioMsg.ClientStream
import AsioMsg.ServerReplies

/-!
The two ways over a connection, with any reader at the far end of each. What a
client has written has been handed on by the reader, in order, or is still
under way; and what a session has started to write has been handed to the
client, or is under way to it.
-/

namespace AsioMsg

variable {M : Type}

namespace Build

/-- Several frames, one after the other. -/
theorem Carrying.writeFrames {b : Build M} {mem : Memory} {packages : List (Package M)}
    {readBuffer : Buffer} {wire : Bytes} (h : b.Carrying mem packages readBuffer wire)
    (frames : List (Bytes × Package M))
    (hframes : ∀ x ∈ frames, ∃ f : WireFrame, x.1 = f.bytes ∧ b.Delivers f x.2) :
    b.Carrying mem (packages ++ frames.map Prod.snd) readBuffer
      (wire ++ (frames.map Prod.fst).flatten) := by
  induction frames generalizing packages wire with
  | nil => simpa using h
  | cons x rest ih =>
    obtain ⟨f, hbytes, hdel⟩ := hframes x List.mem_cons_self
    have hrest := ih (h.writeFrame hdel) fun y hy => hframes y (List.mem_cons_of_mem _ hy)
    rw [List.append_assoc, List.append_assoc, ← hbytes] at hrest
    exact hrest

end Build

/-- The bytes that a step of the client reads. -/
def ClientAction.chunk : ClientAction M → Bytes
  | .doRead chunk => chunk
  | _ => []

/-- The client's end of a connection, `arrived` being what the reader makes of a package. -/
structure Uplink (cfg : ClientConfig M) (b : Build M) (mem : Memory)
    (arrived : Package M → Package M) (c : AsioClient M) (sent delivered : List (Package M))
    (readBuffer : Buffer) (up : Bytes) : Prop where
  requests : AsioClient.RequestInv c
  packages : AsioClient.PackageInv cfg c
  writes : ∀ p ∈ c.writes, p.pac ∈ sent
  accepted : ∀ n ∈ c.accepted, (∃ p, c.Carries p ∧ p.put = some n) ∨
    ∃ pac ∈ sent, c.puts[n]? = some pac
  written : ∀ pac ∈ sent, cfg.build.Postable cfg.enableCompressSize pac ∧
    (pac.header.msgType = MsgType.REQREP.code → ∃ n : ℕ, c.puts[n]? = some pac)
  transit : ∃ transit, sent.map arrived = delivered ++ transit ∧
    b.Carrying mem transit readBuffer up

/-- What a client can write is a frame that the reader hands on as the package that arrives. -/
def Arrives (cfg : ClientConfig M) (b : Build M) (arrived : Package M → Package M) : Prop :=
  ∀ p : PackagePtr M, cfg.build.Postable cfg.enableCompressSize p.pac →
    ∃ f : WireFrame, cfg.bytesOf p = f.bytes ∧ b.Delivers f (arrived p.pac)

section Uplink

variable {cfg : ClientConfig M} {b : Build M} {mem : Memory} {arrived : Package M → Package M}
  {c d : AsioClient M} {sent delivered : List (Package M)} {readBuffer : Buffer} {up : Bytes}

theorem arrives_of_encode (h : ∀ pac, cfg.build.Postable cfg.enableCompressSize pac →
    ∃ sent out f, cfg.build.encode cfg.memory cfg.enableCompressSize pac Buffer.empty =
      .frame sent out ∧ out.readable = WireFrame.bytes f ∧ b.Delivers f (arrived pac)) :
    Arrives cfg b arrived := by
  intro p hp
  obtain ⟨sent, out, f, henc, hout, hdel⟩ := h p.pac hp
  refine ⟨f, ?_, hdel⟩
  rw [ClientConfig.bytesOf, Build.bytesOf_of_frame henc, Option.getD_some, hout]

theorem uplink_init (cfg : ClientConfig M) (b : Build M) (mem : Memory)
    (arrived : Package M → Package M) :
    Uplink cfg b mem arrived { connects := 1 } [] [] Buffer.empty [] := by
  have hinit : (AsioClient.machine cfg).ReachableWhen (AsioClient.Orderly cfg)
      (AsioClient.machine cfg).init := .init
  exact {
    requests := AsioClient.requestInv_reachable hinit
    packages := AsioClient.packageInv_reachable hinit
    writes := by simp
    accepted := by simp
    written := by simp
    transit := ⟨[], rfl, Build.carrying_empty ..⟩ }

theorem Uplink.client (h : Uplink cfg b mem arrived c sent delivered readBuffer up)
    (harrives : Arrives cfg b arrived) {a : ClientAction M} (hok : AsioClient.Orderly cfg c a)
    (hsteps : AsioClient.Steps cfg c a d) :
    Uplink cfg b mem arrived d (sent ++ ((c.nextWrite a).map PackagePtr.pac).toList) delivered
      readBuffer (up ++ ((c.nextWrite a).map cfg.bytesOf).getD []) := by
  have hputs := hsteps.puts_initial
  refine ⟨h.requests.step hok hsteps, h.packages.step hok hsteps, ?_, ?_, ?_, ?_⟩
  · intro p hp
    rw [List.mem_append]
    refine (hsteps.writes hp).imp (h.writes p) fun hnext => ?_
    rw [hnext]
    exact List.mem_singleton.mpr rfl
  · intro n hn
    rcases hsteps.accepted hn with hn | hnew
    · rcases h.accepted n hn with ⟨p, hp, hnum⟩ | ⟨pac, hpac, hput⟩
      · rcases hsteps.carries h.packages.queue hp with hp' | hwrite
        · exact Or.inl ⟨p, hp', hnum⟩
        · exact Or.inr ⟨p.pac, List.mem_append_left _ (h.writes p hwrite),
            Pending.getElem?_of_initial hputs (h.packages.numbered p (Or.inl hp) n hnum)⟩
      · exact Or.inr ⟨pac, List.mem_append_left _ hpac, Pending.getElem?_of_initial hputs hput⟩
    · exact Or.inl hnew
  · intro pac hpac
    rcases List.mem_append.mp hpac with hpac | hpac
    · refine (h.written pac hpac).imp_right fun hreq htype => ?_
      obtain ⟨n, hput⟩ := hreq htype
      exact ⟨n, Pending.getElem?_of_initial hputs hput⟩
    · obtain ⟨p, hnext, rfl⟩ := Option.map_eq_some_iff.mp (Option.mem_toList.mp hpac)
      have hholds : c.Holds p := Or.inl (AsioClient.carries_nextWrite hnext)
      refine ⟨h.packages.postable p hholds, fun htype => ?_⟩
      obtain ⟨n, hnum⟩ := h.packages.reqrep p hholds htype
      exact ⟨n, Pending.getElem?_of_initial hputs (h.packages.numbered p hholds n hnum)⟩
  · obtain ⟨transit, hwritten, hcarrying⟩ := h.transit
    cases hnext : c.nextWrite a with
    | none => exact ⟨transit, by simpa using hwritten, by simpa using hcarrying⟩
    | some p =>
      obtain ⟨f, hbytes, hdel⟩ :=
        harrives p (h.packages.postable p (Or.inl (AsioClient.carries_nextWrite hnext)))
      refine ⟨transit ++ [arrived p.pac], ?_, ?_⟩
      · simp only [Option.map_some, Option.toList_some, List.map_append, hwritten,
          List.map_cons, List.map_nil, List.append_assoc]
      · simp only [Option.map_some, Option.getD_some, hbytes]
        exact hcarrying.writeFrame hdel

/-- A read hands on the next packages of what is under way. -/
theorem Uplink.doRead (h : Uplink cfg b mem arrived c sent delivered readBuffer up)
    {chunk : Bytes} (hchunk : chunk <+: up) :
    (b.doRead mem readBuffer chunk).failed = false ∧
      Uplink cfg b mem arrived c sent (delivered ++ (b.doRead mem readBuffer chunk).items)
        (b.doRead mem readBuffer chunk).state (up.drop chunk.length) := by
  obtain ⟨transit, hwritten, hcarrying⟩ := h.transit
  obtain ⟨hread, rest, hitems, hrest⟩ := hcarrying.doRead hchunk
  refine ⟨hread, h.requests, h.packages, h.writes, h.accepted, h.written, rest, ?_, hrest⟩
  rw [hwritten, hitems, List.append_assoc]

/-- What has been handed on was written. -/
theorem Uplink.mem_delivered (h : Uplink cfg b mem arrived c sent delivered readBuffer up)
    {pac : Package M} (hpac : pac ∈ delivered) : ∃ pac' ∈ sent, arrived pac' = pac := by
  obtain ⟨transit, hwritten, _⟩ := h.transit
  exact List.mem_map.mp (hwritten ▸ List.mem_append_left _ hpac)

end Uplink

/-- The session's end: its buffers with the packages they are frames of, and the packages of those
started that the client has not been handed yet. -/
structure Downlink (b : Build M) (mem : Memory) (outbox started : List (Outbound M))
    (announced : List (Outbound M × Package M)) (handed transit : List (Package M))
    (readBuffer : Buffer) (down : Bytes) : Prop where
  outbox : outbox = announced.map Prod.fst
  frames : ∀ x ∈ announced, ∃ f : WireFrame, x.1.buffer = f.bytes ∧ b.Delivers f x.2
  handed : handed ++ transit = (announced.map Prod.snd).take started.length
  carrying : b.Carrying mem transit readBuffer down

section Downlink

variable {b : Build M} {mem : Memory} {outbox outbox' started started' : List (Outbound M)}
  {announced : List (Outbound M × Package M)} {handed transit : List (Package M)}
  {readBuffer : Buffer} {down : Bytes}

theorem downlink_init (b : Build M) (mem : Memory) :
    Downlink b mem [] [] [] [] [] Buffer.empty [] :=
  ⟨rfl, by simp, rfl, Build.carrying_empty ..⟩

/-- The session gets on: buffers may be posted to it, and some of them be started. -/
theorem Downlink.server
    (h : Downlink b mem outbox started announced handed transit readBuffer down)
    (more : List (Outbound M × Package M))
    (hmore : ∀ x ∈ more, ∃ f : WireFrame, x.1.buffer = f.bytes ∧ b.Delivers f x.2)
    (hout : outbox' = outbox ++ more.map Prod.fst) (hold : started <+: outbox)
    (hnew : started' <+: outbox') (hstarted : started <+: started') :
    ∃ transit', Downlink b mem outbox' started' (announced ++ more) handed transit' readBuffer
      (down ++ ((started'.drop started.length).map Outbound.buffer).flatten) := by
  have houtbox : outbox' = (announced ++ more).map Prod.fst := by
    rw [hout, h.outbox, List.map_append]
  have hframes : ∀ x ∈ announced ++ more, ∃ f : WireFrame,
      x.1.buffer = f.bytes ∧ b.Delivers f x.2 := by
    intro x hx
    exact (List.mem_append.mp hx).elim (h.frames x) (hmore x)
  have hshort : started.length ≤ announced.length := by
    have hle := hold.length_le
    rwa [h.outbox, List.length_map] at hle
  have hle := hstarted.length_le
  -- what is started now and was not before, with the packages
  let fresh := ((announced ++ more).take started'.length).drop started.length
  have hbuffers : started'.drop started.length = fresh.map Prod.fst := by
    rw [List.map_drop, List.map_take, ← houtbox, ← List.prefix_iff_eq_take.mp hnew]
  have hfresh : ∀ x ∈ fresh, x ∈ announced ++ more := fun x hx =>
    List.mem_of_mem_take (List.mem_of_mem_drop hx)
  refine ⟨transit ++ fresh.map Prod.snd, houtbox, hframes, ?_, ?_⟩
  · rw [← List.append_assoc, h.handed, List.map_drop, List.map_take]
    have hsplit : (announced.map Prod.snd).take started.length =
        (((announced ++ more).map Prod.snd).take started'.length).take started.length := by
      rw [List.take_take, Nat.min_eq_left hle, List.map_append,
        List.take_append_of_le_length (by rwa [List.length_map])]
    rw [hsplit, List.take_append_drop]
  · have hwrite := h.carrying.writeFrames
      (fresh.map fun x => (x.1.buffer, x.2)) (fun y hy => by
        obtain ⟨x, hx, rfl⟩ := List.mem_map.mp hy
        exact hframes x (hfresh x hx))
    rw [List.map_map, List.map_map] at hwrite
    rw [hbuffers, List.map_map]
    exact hwrite

/-- The client gets on: it may read some of the bytes that are under way to it. -/
theorem Downlink.client {cfg : ClientConfig M} {c d : AsioClient M} {a : ClientAction M}
    (h : Downlink cfg.build cfg.memory outbox started announced c.handed transit c.readBuffer
      down) (hchunk : a.chunk <+: down) (hsteps : AsioClient.Steps cfg c a d) :
    ∃ transit', Downlink cfg.build cfg.memory outbox started announced d.handed transit'
      d.readBuffer (down.drop a.chunk.length) := by
  by_cases hread : ∃ chunk, a = .doRead chunk
  · obtain ⟨chunk, rfl⟩ := hread
    cases hsteps with
    | doRead _ hdo =>
      obtain ⟨_, hd⟩ := Option.ite_none_left_eq_some.mp hdo
      obtain rfl := Option.some.inj hd
      obtain ⟨_, rest, hitems, hrest⟩ := h.carrying.doRead hchunk
      refine ⟨rest, h.outbox, h.frames, ?_, hrest⟩
      rw [← h.handed, hitems, ← List.append_assoc]
      rfl
  · have hnil : a.chunk = [] := by
      cases a with
      | doRead chunk => exact absurd ⟨chunk, rfl⟩ hread
      | _ => rfl
    obtain ⟨hbuffer, hhanded⟩ : d.readBuffer = c.readBuffer ∧ d.handed = c.handed := by
      rcases hsteps.reading with ⟨hbuffer, hhanded, _⟩ | ⟨_, hbuffer, hhanded, _⟩ |
        ⟨chunk, ha, _⟩
      · exact ⟨hbuffer, hhanded⟩
      · exact ⟨hbuffer, hhanded⟩
      · exact absurd ⟨chunk, ha⟩ hread
    refine ⟨transit, h.outbox, h.frames, ?_, ?_⟩
    · rw [hhanded]
      exact h.handed
    · rw [hbuffer, hnil]
      exact h.carrying

/-- When all that was posted has been started and nothing is under way, the client has been handed
the package of every buffer. -/
theorem Downlink.handed_all
    (h : Downlink b mem outbox started announced handed transit readBuffer [])
    (hstarted : started = outbox) : transit = [] ∧ handed = announced.map Prod.snd := by
  obtain rfl := h.carrying.eq_nil
  have hhanded := h.handed
  rw [List.append_nil, hstarted, h.outbox, List.length_map, ← List.length_map (f := Prod.snd),
    List.take_length] at hhanded
  exact ⟨rfl, hhanded⟩

end Downlink

end AsioMsg
