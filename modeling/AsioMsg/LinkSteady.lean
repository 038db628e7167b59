import AsioMsg.LinkCalls

/-!
Runs in which nothing goes wrong: the client is not stopped, and no read or
write of the connection fails. In these the client is online only with a read
outstanding, both write queues move, and every task can reply.
-/

namespace AsioMsg

variable {M : Type}

namespace AsioClient

variable {cfg : ClientConfig M} {c d : AsioClient M} {a : ClientAction M}

/-- Nothing stops the client, and no read or write of it fails. -/
def unbroken : ClientAction M → Bool
  | .stop | .readError => false
  | .writeDone _ success => success
  | _ => true

/-- The call posts and returns eSuccess only on a client that is online. -/
theorem postCall_eq_online (c : AsioClient M) (i : ℕ) (call : PackagePtr M) :
    c.postCall i call = { c with calls := c.calls.eraseIdx i } ∨
      (c.isOnline = true ∧ c.postCall i call = { c with
        calls := c.calls.eraseIdx i
        posted := c.posted ++ [.startWrite call]
        accepted := c.accepted ++ call.put.toList }) := by
  by_cases honline : c.isOnline = true
  · exact (postCall_eq c i call).imp_right fun heq => ⟨honline, heq⟩
  · left
    rw [Bool.not_eq_true] at honline
    by_cases hstopped : c.stopped = true <;> simp [postCall, postPackage, honline, hstopped]

/-- The client is online only with a read outstanding, its queue moves, and it will not close. -/
structure Sound (c : AsioClient M) : Prop where
  stopped : c.stopped = false
  posted : .doClose ∉ c.posted
  queue : Flowing c
  online : c.isOnline = true → 0 < c.reads
  accepted : c.accepted ≠ [] → 0 < c.reads

/-- Posting a package. -/
theorem Sound.post (h : Sound c) (package : PackagePtr M) :
    Sound { c with posted := c.posted ++ [.startWrite package] } :=
  ⟨h.stopped, by simp [h.posted], h.queue, h.online, h.accepted⟩

theorem Sound.postPackage (h : Sound c) (package : PackagePtr M) :
    Sound (c.postPackage package).2 := by
  rcases postPackage_eq c package with heq | heq | heq <;> rw [heq]
  · exact h
  · exact h
  · exact h.post package

theorem Sound.step (h : Sound c) (hencodes : ∀ p ∈ c.nextWrite a, cfg.encodes p = true)
    (hok : unbroken a = true) (hstep : Steps cfg c a d) : Sound d := by
  have hsucceeds : writeFails a = false := by
    cases a with
    | writeDone i success => exact (Bool.not_eq_false' success).mpr hok
    | _ => rfl
  have hqueue : Flowing d := h.queue.step ⟨hsucceeds, hencodes⟩ hstep
  cases hstep with
  | postMessage isOrder msg => exact ⟨h.stopped, h.posted, hqueue, h.online, h.accepted⟩
  | @postCall i call _ =>
    rcases postCall_eq_online c i call with heq | ⟨honline, heq⟩ <;> rw [heq] at hqueue ⊢
    · exact ⟨h.stopped, h.posted, hqueue, h.online, h.accepted⟩
    · exact ⟨h.stopped, by simp [h.posted], hqueue, h.online, fun _ => h.online honline⟩
  | publishMessage msg =>
    have hid : Sound { c with id := c.id + 1 } :=
      ⟨h.stopped, h.posted, h.queue, h.online, h.accepted⟩
    exact hid.postPackage _
  | postPackage pac => exact h.postPackage _
  | stop | readError _ => simp [unbroken] at hok
  | startWrite _ hrun =>
    obtain rfl := startWrite_eq hrun
    exact ⟨h.stopped, fun hmem => h.posted (List.mem_of_mem_eraseIdx hmem), hqueue, h.online,
      h.accepted⟩
  | doClose hget => exact absurd (List.mem_of_getElem? hget) h.posted
  | doConnect success _ =>
    cases success with
    | true =>
      exact ⟨h.stopped, h.posted, hqueue, fun _ => Nat.succ_pos _, fun _ => Nat.succ_pos _⟩
    | false =>
      have hframe : c.doConnect cfg false = { c with
          isOnline := false
          connects := (c.doConnect cfg false).connects } := by
        simp only [AsioClient.doConnect, Bool.false_eq_true, if_false]
        split <;> rfl
      rw [hframe] at hqueue ⊢
      exact ⟨h.stopped, h.posted, hqueue, by simp, h.accepted⟩
  | doRead _ hread =>
    obtain ⟨_, hd⟩ := Option.ite_none_left_eq_some.mp hread
    obtain rfl := Option.some.inj hd
    exact ⟨h.stopped, h.posted, hqueue, fun _ => Nat.succ_pos _, fun _ => Nat.succ_pos _⟩
  | writeDone _ hdone =>
    rcases writeDone_eq hdone with ⟨hfailed, _⟩ | ⟨_, rfl⟩
    · exact absurd (hok.symm.trans hfailed) (by simp)
    · exact ⟨h.stopped, h.posted, hqueue, h.online, h.accepted⟩
  | timerAborted _ _ | timerExpired _ | doResponse _ =>
    exact ⟨h.stopped, h.posted, hqueue, h.online, h.accepted⟩

/-- The write of a package that encodes can be started. -/
theorem startWriteFront_isSome (hne : c.pendingList ≠ [])
    (hencodes : ∀ p ∈ c.pendingList.head?, cfg.encodes p = true) :
    (c.startWriteFront cfg).isSome = true := by
  obtain ⟨p, rest, hlist⟩ := List.exists_cons_of_ne_nil hne
  have henc : cfg.encodes p = true := hencodes p (by rw [hlist]; rfl)
  unfold ClientConfig.encodes at henc
  simp only [startWriteFront, hlist]
  cases hresult : cfg.build.encode cfg.memory cfg.enableCompressSize p.pac Buffer.empty with
  | frame _ _ => rfl
  | refused | undefined => simp [hresult, Encoded.isFrame] at henc

end AsioClient

/-- Whatever its header, encode takes a package with a message that fits, or refuses it. -/
theorem Build.Fits.encode_ne {b : Build M} {enableCompressSize : BitVec 32} {msg : M}
    (h : b.Fits enableCompressSize msg) (mem : Memory) (header : PacHeader) :
    b.encode mem enableCompressSize
      { header := header, typeName := b.protobuf.getTypeName msg, msgPtr := some msg }
      Buffer.empty ≠ .undefined := by
  obtain ⟨hpasses, _, hpos, hle, hsize, _⟩ := h
  have hname : b.protobuf.getTypeName msg ≠ [] := List.ne_nil_of_length_pos hpos
  rw [b.encode_serialized mem enableCompressSize
    { header := header, typeName := b.protobuf.getTypeName msg, msgPtr := some msg } _ hname
    hpasses rfl hsize]
  have hlen : ¬ (BitVec.ofNat 16 (b.protobuf.getTypeName msg).length).toInt < 0 := by
    rw [BitVec.toInt_ofNat', Int.bmod_def]
    omega
  have happend : ∀ (buf : Buffer) (package : Package M),
      appendString mem buf (b.protobuf.getTypeName msg)
        (b.wireHeader enableCompressSize package msg).typeNameLen =
          some (buf.append (stringBytes mem (b.protobuf.getTypeName msg)
            (b.wireHeader enableCompressSize package msg).typeNameLen.toNat)) :=
    fun _ _ => if_neg hlen
  rw [happend]
  simp

namespace Server

variable {cfg : ServerConfig M} {s t : Server M} {a : ServerAction M} {k : ℕ}

/-- A session without a failed write. -/
theorem flowing_step (h : (s.sessions k).Flowing)
    (hok : ∀ i success, a = .doWrite k i success → success = true)
    (hstep : s.step cfg a = some t) : (t.sessions k).Flowing := by
  rcases sessions_cases hstep k with hsame | ⟨out, hout⟩ | ⟨i, success, buf, ha, hget, hout⟩
  · rwa [hsame]
  · rw [hout]
    exact h.writeBuffer out
  · obtain rfl := hok i success ha
    obtain ⟨herase, rest, hdeque⟩ := h.of_write hget
    rw [hout]
    exact (h.doWrite_success herase hdeque).2

/-- Only what has a handler is decoded. -/
def Handled (cfg : ServerConfig M) (s : Server M) : Prop :=
  ∀ job ∈ s.decoded, (cfg.handler job.pac.typeName).isSome = true

theorem Handled.handleMessage (h : Handled cfg s) (session : ℕ) (pac : Package M) :
    Handled cfg (s.handleMessage cfg session pac) := by
  rcases handleMessage_cases cfg s session pac with ⟨_, hsame⟩ | ⟨hsome, hdecoded, _⟩
  · rwa [hsame]
  · intro job hjob
    rw [hdecoded, List.mem_append, List.mem_singleton] at hjob
    rcases hjob with hjob | rfl
    · exact h job hjob
    · exact hsome

theorem Handled.step (h : Handled cfg s) (hstep : s.step cfg a = some t) : Handled cfg t := by
  by_cases hmessage : ∃ session pac, a = .handleMessage session pac
  · obtain ⟨session, pac, rfl⟩ := hmessage
    obtain rfl := Option.some.inj hstep
    exact h.handleMessage session pac
  · have hother : ∀ session pac, a ≠ .handleMessage session pac := fun session pac ha =>
      hmessage ⟨session, pac, ha⟩
    intro job hjob
    rw [(step_cases hstep hother).1] at hjob
    exact h job hjob

/-- The task of a job comes to its end. -/
theorem replyMessage_isSome (hfit : cfg.RepliesFit) {job : Job M}
    (hhandler : (cfg.handler job.pac.typeName).isSome = true) :
    (s.replyMessage cfg job).isSome = true := by
  obtain ⟨task, htask⟩ := Option.isSome_iff_exists.mp hhandler
  have henc := (hfit _ task job.pac htask).encode_ne cfg.memory job.pac.header
  simp only [Server.replyMessage, htask, replyPackage]
  split
  · rfl
  · rfl
  · next hundefined => exact absurd hundefined henc

end Server

namespace Link

variable {cfg : LinkConfig M} {l l' : Link M}

/-- The client is not stopped, and no read or write of the connection fails. -/
def unbroken (cfg : LinkConfig M) : LinkAction M → Bool
  | .client a => AsioClient.unbroken a
  | .server (.doWrite session _ success) => session != cfg.session || success
  | _ => true

/-- Nothing goes wrong. -/
def Steady (cfg : LinkConfig M) (l : Link M) (a : LinkAction M) : Prop :=
  Orderly cfg l a ∧ unbroken cfg a = true

instance (cfg : LinkConfig M) (l : Link M) (a : LinkAction M) : Decidable (Steady cfg l a) :=
  inferInstanceAs (Decidable (_ ∧ _))

structure Sound (cfg : LinkConfig M) (l : Link M) : Prop where
  client : AsioClient.Sound l.client
  session : (l.server.sessions cfg.session).Flowing
  handled : Server.Handled cfg.server l.server

theorem Inv.encodes (h : Inv cfg l) (hrel : Reliable cfg) {p : PackagePtr M}
    (hp : l.client.Carries p) : cfg.client.encodes p = true := by
  obtain ⟨sent, out, f, henc, _⟩ :=
    (h.up.packages.postable p (Or.inl hp)).encode_eq hrel.parse hrel.zlib cfg.client.memory
  have henc' : cfg.client.build.encode cfg.client.memory cfg.client.enableCompressSize p.pac
      Buffer.empty = .frame sent out := henc
  rw [ClientConfig.encodes, henc']
  rfl

theorem Sound.postPackage (h : Sound cfg l) {pac : Package M}
    (hstep : l.postPackage cfg pac = some l') : Sound cfg l' := by
  unfold Link.postPackage at hstep
  split at hstep
  · obtain rfl := Option.some.inj hstep
    exact ⟨h.client, h.session, h.handled⟩
  · exact Option.some.inj hstep ▸ h
  · simp at hstep

theorem Sound.step (h : Sound cfg l) (hrel : Reliable cfg) (hinv : Inv cfg l)
    {a : LinkAction M} (hok : unbroken cfg a = true) (hstep : l.step cfg a = some l') :
    Sound cfg l' := by
  cases a with
  | client a =>
    obtain ⟨_, hmap⟩ := Option.ite_none_right_eq_some.mp hstep
    obtain ⟨c, hc, rfl⟩ := Option.map_eq_some_iff.mp hmap
    refine ⟨h.client.step (fun p hp => ?_) hok (.of_step hc), h.session, h.handled⟩
    exact hinv.encodes hrel (AsioClient.carries_nextWrite hp)
  | server a =>
    obtain ⟨_, hmap⟩ := Option.ite_none_right_eq_some.mp hstep
    obtain ⟨s, hs, rfl⟩ := Option.map_eq_some_iff.mp hmap
    refine ⟨h.client, Server.flowing_step h.session ?_ hs, h.handled.step hs⟩
    rintro i success rfl
    simpa [unbroken] using hok
  | doRead chunk =>
    obtain ⟨_, hstep⟩ := Option.ite_none_right_eq_some.mp hstep
    obtain ⟨_, hstep⟩ := Option.ite_none_left_eq_some.mp hstep
    obtain rfl := Option.some.inj hstep
    refine ⟨h.client, ?_, ?_⟩
    · rw [(handleMessages_frame ..).2]
      exact h.session
    · exact List.foldlRecOn _ _ h.handled fun s hs pac _ => hs.handleMessage cfg.session pac
  | publishMessage msg =>
    have hid : Sound cfg { l with id := l.id + 1 } := ⟨h.client, h.session, h.handled⟩
    exact hid.postPackage hstep
  | deliverPackage pac => exact h.postPackage hstep

theorem sound_reachable (hrel : Reliable cfg)
    (h : (machine cfg).ReachableWhen (Steady cfg) l) :
    Inv cfg l ∧ CallInv cfg l.client ∧ Sound cfg l := by
  obtain ⟨hinv, hcall⟩ := callInv_reachable hrel (h.mono fun _ _ hok => hok.1)
  refine ⟨hinv, hcall, ?_⟩
  clear hinv hcall
  induction h with
  | init => exact {
      client := ⟨rfl, by simp [machine], rfl, by simp [machine], by simp [machine]⟩
      session := ⟨rfl, [], rfl, rfl⟩
      handled := by simp [Server.Handled, machine] }
  | step a hs hok hstep ih =>
    exact ih.step hrel (inv_reachable hrel (hs.mono fun _ _ hok => hok.1)) hok.2 hstep

end Link

end AsioMsg
