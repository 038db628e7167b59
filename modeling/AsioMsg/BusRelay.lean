import AsioMsg.BusChannels

/-!
What the clients are handed. Whatever the interleaving and wherever the reads
cut the streams, a client is handed what the clients have written, unchanged
but for the type that the bus sets: from each of them in order and nothing
twice, with what the bus has posted of its own in between.
-/

namespace AsioMsg

variable {M : Type}

/-- The package that a client makes of one that another client has sent, if the bus hands it on. -/
def Build.relayed (b : Build M) (pac : Package M) : Option (Package M) :=
  if hasPrefixString pac.typeName protoBase then none else pac.relay.map b.atPeer

namespace BusNet

variable {cfg : BusConfig M} {s t : BusNet M}

/-- A client can read what the bus makes of a package that was sent. -/
theorem Reliable.relays (hrel : Reliable cfg) {enableCompressSize : BitVec 32} {pac : Package M}
    (h : (cfg.build.withBus false).Postable enableCompressSize pac) :
    (∀ p ∈ (cfg.build.atBus enableCompressSize pac).busRelay, cfg.Readable p ∧
        ∀ name, (cfg.seen p).Broadcast name = p.Broadcast name) ∧
      (cfg.build.atBus enableCompressSize pac).busRelay.map cfg.seen = cfg.build.relayed pac := by
  obtain ⟨hptr, htype⟩ := h.atBus_msgPtr
  by_cases hbase : hasPrefixString pac.typeName protoBase = true
  · rw [Package.busRelay, hptr, if_pos hbase, Build.relayed, if_pos hbase]
    simp
  · rw [Package.busRelay, hptr, if_neg hbase, Build.relayed, if_neg hbase, Package.relay,
      Package.relay, htype]
    cases relayType pac.header.msgType with
    | none => simp
    | some t =>
      obtain ⟨sent, out, f, henc, hout, hdel⟩ := h.relays (Bool.eq_false_of_not_eq_true hbase)
        hrel.parse hrel.zlib t cfg.memory cfg.enableCompressSize
      have hbytes : cfg.server.bytesOf
          ((cfg.build.atBus enableCompressSize pac).setMsgType t) = some f.bytes :=
        (Build.bytesOf_of_frame henc).trans (congrArg some hout)
      have hseen := BusConfig.seen_eq hbytes hdel
      refine ⟨fun p hp => ?_, congrArg some hseen⟩
      obtain rfl := Option.some.inj hp
      refine ⟨⟨f, hbytes, hseen ▸ hdel⟩, fun name => ?_⟩
      have hname : (cfg.build.atPeer (pac.setMsgType t)).typeName =
          (cfg.build.atBus enableCompressSize pac).typeName :=
        (h.setMsgType t).atPeer_typeName.trans h.atBus_typeName.symm
      rw [hseen, Package.Broadcast, hname, (cfg.build.atPeer_header _).1]
      rfl

/-- A package that the bus posts of its own. -/
theorem Reliable.own (hrel : Reliable cfg) {pac : Package M}
    (h : cfg.server.build.Postable cfg.server.enableCompressSize pac) :
    cfg.Readable pac ∧ cfg.seen pac = cfg.build.atPeer pac := by
  obtain ⟨sent, out, f, henc, hout, hdel⟩ :=
    Build.Postable.arrives_client h hrel.parse hrel.zlib cfg.memory
  have hbytes : cfg.server.bytesOf pac = some f.bytes :=
    (Build.bytesOf_of_frame henc).trans (congrArg some hout)
  have hseen := BusConfig.seen_eq hbytes hdel
  exact ⟨⟨f, hbytes, hseen ▸ hdel⟩, hseen⟩

theorem Reliable.arrives (hrel : Reliable cfg) (k : ℕ) :
    Arrives (cfg.client k) cfg.server.build (cfg.build.atBus (cfg.clientCompressSize k)) :=
  arrives_of_encode fun _ hpac =>
    Build.Postable.arrives_bus hpac hrel.parse hrel.zlib (cfg.clientMemory k)

/-- The way from a client to the bus. -/
abbrev UpInv (cfg : BusConfig M) (k : ℕ) (peer : BusPeer M) : Prop :=
  Uplink (cfg.client k) cfg.server.build cfg.memory
    (cfg.build.atBus (cfg.clientCompressSize k)) peer.client peer.written peer.decoded
    peer.readBuffer peer.up

structure Inv (cfg : BusConfig M) (s : BusNet M) : Prop where
  down : DownInv cfg s
  up : ∀ k, UpInv cfg k (s.peers k)
  own : ∀ post ∈ s.posted, post.sender = none → cfg.seen post.pac = cfg.build.atPeer post.pac
  relayed : ∀ j k,
    (between s.posted j k).Sublist ((s.peers j).decoded.filterMap Package.busRelay)

theorem UpInv.setPeer (h : ∀ k, UpInv cfg k (s.peers k)) {k : ℕ} {peer : BusPeer M}
    (hpeer : UpInv cfg k peer) (i : ℕ) : UpInv cfg i ((s.setPeer k peer).peers i) :=
  (Function.forall_update_iff s.peers (UpInv cfg)).mpr ⟨hpeer, fun i _ => h i⟩ i

theorem Inv.client (h : Inv cfg s) (hrel : Reliable cfg) {k : ℕ} {a : ClientAction M}
    (hok : AsioClient.Orderly (cfg.client k) (s.peers k).client a)
    (hstep : s.clientStep cfg k a = some t) : Inv cfg t := by
  obtain ⟨hchunk, hmap⟩ := Option.ite_none_right_eq_some.mp hstep
  obtain ⟨c, hc, rfl⟩ := Option.map_eq_some_iff.mp hmap
  have hsteps : AsioClient.Steps (cfg.client k) (s.peers k).client a c := .of_step hc
  obtain ⟨transit, hdown⟩ : ∃ transit, Downlink (cfg.client k).build (cfg.client k).memory
    (s.server.outbox k) (s.server.sessions k).started ((s.postedTo k).map cfg.announce)
    (s.peers k).client.handed transit (s.peers k).client.readBuffer (s.peers k).down :=
    h.down.down k
  refine ⟨h.down.setPeer (hdown.client hchunk hsteps),
    UpInv.setPeer h.up ((h.up k).client (hrel.arrives k) hok hsteps), h.own, ?_⟩
  exact (Function.forall_update_iff s.peers fun j (peer : BusPeer M) => ∀ k,
    (between s.posted j k).Sublist (peer.decoded.filterMap Package.busRelay)).mpr
    ⟨h.relayed k, fun i _ => h.relayed i⟩

/-- What a session decodes now is handed on behind what it has decoded before. -/
theorem Inv.doRead_cases (h : Inv cfg s) (hrel : Reliable cfg) {k : ℕ} {chunk : Bytes}
    (hstep : s.doRead cfg k chunk = some t) :
    DownInv cfg t ∧ (∀ i, UpInv cfg i (t.peers i)) ∧ ∃ items more,
      (∀ i, (t.peers i).decoded = (s.peers i).decoded ++ if i = k then items else []) ∧
      t.posted = s.posted ++ more ∧ (∀ post ∈ more, post.sender = some k) ∧
      (∀ i, (between more k i).Sublist (items.filterMap Package.busRelay)) ∧
      ∀ name i, sessionId i ∈ s.bus.room.receivers (s.bus.room.deliverCache name) →
        (between more k i).filter (Package.Broadcast name) =
          (items.filterMap Package.busRelay).filter (Package.Broadcast name) := by
  obtain ⟨hchunk, hread⟩ := Option.ite_none_right_eq_some.mp hstep
  obtain ⟨_, hhandle⟩ := Option.ite_none_left_eq_some.mp hread
  obtain ⟨_, hup⟩ := (h.up k).doRead hchunk
  let d := cfg.server.build.doRead cfg.memory (s.peers k).readBuffer chunk
  have hreadable : ∀ pac ∈ d.items, ∀ p ∈ pac.busRelay, cfg.Readable p := by
    intro pac hpac
    obtain ⟨sent, hsent, rfl⟩ := hup.mem_delivered (List.mem_append_right _ hpac)
    exact fun p hp => ((hrel.relays (hup.written sent hsent).1).1 p hp).1
  -- the client and what is under way to it are as before
  let peer : BusPeer M := { s.peers k with
    readBuffer := d.state
    up := (s.peers k).up.drop chunk.length
    decoded := (s.peers k).decoded ++ d.items }
  have hsame : DownInv cfg (s.setPeer k peer) := h.down.setPeer (h.down.down k)
  obtain ⟨hdown, hpeers, more, hposted, hsender, hmore, hbroadcast⟩ :=
    hsame.preHandleMessages hreadable hhandle
  refine ⟨hdown, fun i => ?_, d.items, more, fun i => ?_, hposted, hsender, hmore, hbroadcast⟩
  · rw [hpeers]
    exact UpInv.setPeer h.up hup i
  · rw [hpeers]
    by_cases hi : i = k
    · subst hi
      simp only [BusNet.setPeer, Function.update_self, peer, if_true]
    · simp only [BusNet.setPeer, Function.update_of_ne hi, if_neg hi, List.append_nil]

theorem Inv.doRead (h : Inv cfg s) (hrel : Reliable cfg) {k : ℕ} {chunk : Bytes}
    (hstep : s.doRead cfg k chunk = some t) : Inv cfg t := by
  obtain ⟨hdown, hup, items, more, hdecoded, hposted, hsender, hmore, _⟩ :=
    h.doRead_cases hrel hstep
  refine ⟨hdown, hup, ?_, fun i j => ?_⟩
  · intro post hpost hnone
    rw [hposted] at hpost
    rcases List.mem_append.mp hpost with hpost | hpost
    · exact h.own post hpost hnone
    · rw [hsender post hpost] at hnone
      simp at hnone
  · rw [hdecoded, hposted, between_append, List.filterMap_append]
    refine (h.relayed i j).append ?_
    by_cases hi : i = k
    · subst hi
      rw [if_pos rfl]
      exact hmore j
    · rw [between_eq_nil_of_sender hsender (Ne.symm hi)]
      exact List.nil_sublist _

theorem Inv.postPackage (h : Inv cfg s) (hrel : Reliable cfg) {k : ℕ} {pac : Package M}
    (hpost : cfg.server.build.Postable cfg.server.enableCompressSize pac)
    (hstep : s.postPackage cfg none k pac = some t) : Inv cfg t := by
  obtain ⟨hread, hseen⟩ := hrel.own hpost
  obtain ⟨hdown, _, hpeers, hposted⟩ := h.down.postPackage hread hstep
  refine ⟨hdown, hpeers ▸ h.up, ?_, fun i j => ?_⟩
  · intro post hmem hnone
    rw [hposted] at hmem
    rcases List.mem_append.mp hmem with hmem | hmem
    · exact h.own post hmem hnone
    · rw [List.mem_singleton.mp hmem]
      exact hseen
  · have hnone : between [BusPost.mk k none pac] i j = [] :=
      between_eq_nil (by simp) j
    rw [hpeers, hposted, between_append, hnone, List.append_nil]
    exact h.relayed i j

/-- A step of io_. -/
theorem Inv.setServer (h : Inv cfg s) {server : Server M} {a : ServerAction M}
    (hstep : s.server.step cfg.server a = some server)
    (hout : server.outbox = s.server.outbox) : Inv cfg (s.setServer server) :=
  ⟨h.down.setServer hstep hout, h.up, h.own, h.relayed⟩

/-- Only a session that joins is in the room after a call and was not before. -/
theorem Inv.room (h : Inv cfg s) {call : RoomCall} (hok : Orderly cfg s (.room call)) :
    Inv cfg { s with bus := { s.bus with room := call.apply s.bus.room } } := by
  refine ⟨⟨h.down.order, ?_, h.down.readable, h.down.down⟩, h.up, h.own, h.relayed⟩
  intro id hid
  cases call with
  | join i =>
    rcases Finset.mem_insert.mp hid with rfl | hid
    · exact hok
    · exact h.down.joined id hid
  | leave i => exact h.down.joined id (Finset.mem_of_mem_erase hid)
  | addSubscribe i msgtype name =>
    exact h.down.joined id (SessionRoom.sessionCache_changeSubscribe .. ▸ hid)
  | delSubscribe i msgtype name =>
    exact h.down.joined id (SessionRoom.sessionCache_changeSubscribe .. ▸ hid)

theorem Inv.step (h : Inv cfg s) (hrel : Reliable cfg) {a : BusNetAction M}
    (hok : Orderly cfg s a) (hstep : s.step cfg a = some t) : Inv cfg t := by
  cases a with
  | client k a => exact h.client hrel hok hstep
  | doRead k chunk => exact h.doRead hrel hstep
  | room call =>
    obtain rfl := Option.some.inj hstep
    exact h.room hok
  | postPackage k pac => exact h.postPackage hrel hok hstep
  | runPost =>
    obtain ⟨server, hserver, rfl⟩ := Option.map_eq_some_iff.mp hstep
    exact h.setServer (a := .runPost) hserver (Server.outbox_runPost hserver)
  | doWrite k i success =>
    obtain ⟨server, hserver, rfl⟩ := Option.map_eq_some_iff.mp hstep
    exact h.setServer (a := .doWrite k i success) hserver (Server.outbox_doWrite hserver)

theorem inv_reachable (hrel : Reliable cfg)
    (h : (machine cfg).ReachableWhen (Orderly cfg) s) : Inv cfg s := by
  refine Machine.ReachableWhen.invariant (I := Inv cfg) ?_
    (fun _ _ _ hs hok hstep => hs.step hrel hok hstep) h
  refine ⟨⟨Server.inv_reachable .init, by simp [machine], by simp [machine], fun k => ?_⟩,
    fun k => uplink_init .., by simp [machine], fun j k => List.nil_sublist _⟩
  exact ⟨[], downlink_init ..⟩

/-- The client has been handed the first of what was posted to it. -/
theorem DownInv.handed_eq (h : DownInv cfg s) (k : ℕ) :
    ∃ posts, posts <+: s.postedTo k ∧
      (s.peers k).client.handed = posts.map fun post => cfg.seen post.pac := by
  obtain ⟨transit, hdown⟩ := h.down k
  have hinitial : (s.peers k).client.handed <+:
      (s.postedTo k).map fun post => cfg.seen post.pac := by
    have htake := List.take_prefix (s.server.sessions k).started.length
      (((s.postedTo k).map cfg.announce).map Prod.snd)
    rw [← hdown.handed, List.map_map] at htake
    exact (List.prefix_append _ _).trans htake
  refine ⟨(s.postedTo k).take (s.peers k).client.handed.length, List.take_prefix .., ?_⟩
  rw [List.map_take]
  exact List.prefix_iff_eq_take.mp hinitial

/-- What is handed on of a client's packages, as the clients see it. -/
theorem Inv.filterMap_relayed (h : Inv cfg s) (hrel : Reliable cfg) (j : ℕ) :
    (s.peers j).written.filterMap cfg.build.relayed =
      (((s.peers j).written.map (cfg.build.atBus (cfg.clientCompressSize j))).filterMap
        Package.busRelay).map cfg.seen := by
  rw [List.filterMap_map, List.map_filterMap]
  refine List.filterMap_congr fun pac hpac => ?_
  exact ((hrel.relays ((h.up j).written pac hpac).1).2).symm

/-- What the posts from one client are read as has been written by it, in the same order. -/
theorem Inv.seen_between (h : Inv cfg s) (hrel : Reliable cfg) (j k : ℕ) :
    ((between s.posted j k).map cfg.seen).Sublist
      ((s.peers j).written.filterMap cfg.build.relayed) := by
  obtain ⟨transit, hwritten, _⟩ := (h.up j).transit
  rw [h.filterMap_relayed hrel, hwritten, List.filterMap_append, List.map_append]
  exact ((h.relayed j k).map cfg.seen).trans (List.sublist_append_left _ _)

/-- Each package that a client has been handed comes from a client or from the bus. Those of one
client are what it has written, each with the type that the bus has set, in the same order and
none twice; those of the bus are the first of what it has posted. -/
theorem relayed_intact (hrel : Reliable cfg)
    (h : (machine cfg).ReachableWhen (Orderly cfg) s) (k : ℕ) :
    ∃ handed : List (Option ℕ × Package M),
      (s.peers k).client.handed = handed.map Prod.snd ∧
      (∀ j, ((handed.filter fun entry => decide (entry.1 = some j)).map Prod.snd).Sublist
        ((s.peers j).written.filterMap cfg.build.relayed)) ∧
      (handed.filter fun entry => decide (entry.1 = none)).map Prod.snd <+:
        ((s.postedTo k).filter fun post => decide (post.sender = none)).map
          fun post => cfg.build.atPeer post.pac := by
  have hinv := inv_reachable hrel h
  obtain ⟨posts, hinitial, hhanded⟩ := hinv.down.handed_eq k
  refine ⟨posts.map fun post => (post.sender, cfg.seen post.pac), ?_, fun j => ?_, ?_⟩
  · rw [hhanded, List.map_map]
    rfl
  · rw [List.filter_map, List.map_map]
    refine List.Sublist.trans ?_ (hinv.seen_between hrel j k)
    rw [between_eq, List.map_map]
    exact (hinitial.sublist.filter _).map _
  · rw [List.filter_map, List.map_map]
    have hown : ∀ post ∈ (s.postedTo k).filter fun post => decide (post.sender = none),
        cfg.build.atPeer post.pac = cfg.seen post.pac := by
      intro post hpost
      obtain ⟨hpost, hsender⟩ := List.mem_filter.mp hpost
      exact (hinv.own post (List.mem_of_mem_filter hpost) (of_decide_eq_true hsender)).symm
    rw [List.map_congr_left hown]
    exact (hinitial.filter _).map _

/-- A package with the id of the first request. -/
def pingPackage (t : MsgType) : Package PingPong :=
  AsioClient.makePackage (PingPong.build false) t true 1 PingPong.blank

def pingFrame (t : MsgType) : Bytes :=
  (pingNet.client 0).bytesOf ⟨pingPackage t, none⟩

/-- A request that the second client answers; the reads of the bus cut a frame in two. -/
def pingRelay : List (BusNetAction PingPong) :=
  [.room (.join 1), .room (.join 2), .room (.addSubscribe 2 3 PingPong.typeName),
    .client 0 (.doConnect true), .client 1 (.doConnect true),
    .client 0 (.postMessage true PingPong.blank), .client 0 (.postCall 0),
    .client 0 (.runPosted 0), .doRead 0 ((pingFrame .REQREP).take 30),
    .doRead 0 ((pingFrame .REQREP).drop 30), .runPost,
    .client 1 (.doRead (pingFrame .DELIVER)), .client 1 (.postPackage (pingPackage .DELIVER)),
    .client 1 (.runPosted 0), .doRead 1 (pingFrame .DELIVER), .runPost,
    .client 0 (.doRead (pingFrame .REQREP))]

theorem reliable_ping : Reliable pingNet where
  parse := PingPong.parseUndoesSerialize
  zlib := PingPong.uncompressUndoesCompress

/-- The provider has been handed the request, and its client the reply. -/
theorem relayed_intact_ping :
    ∃ (s : BusNet PingPong) (handed : List (Option ℕ × Package PingPong)),
      (s.peers 0).client.handed.map (fun pac => pac.header.msgType) = [MsgType.REQREP.code] ∧
      (s.peers 1).client.handed.map (fun pac => pac.header.msgType) = [MsgType.DELIVER.code] ∧
      (s.peers 1).client.handed = handed.map Prod.snd ∧
      ∀ j, ((handed.filter fun entry => decide (entry.1 = some j)).map Prod.snd).Sublist
        ((s.peers j).written.filterMap pingNet.build.relayed) := by
  have hrun : ((machine pingNet).run (Orderly pingNet) (machine pingNet).init pingRelay).map
      (fun s => ((s.peers 0).client.handed.map fun pac => pac.header.msgType,
        (s.peers 1).client.handed.map fun pac => pac.header.msgType)) =
      some ([MsgType.REQREP.code], [MsgType.DELIVER.code]) := by decide +kernel
  obtain ⟨s, hs, hstate⟩ := Option.map_eq_some_iff.mp hrun
  obtain ⟨hfirst, hsecond⟩ := Prod.mk.inj hstate
  obtain ⟨handed, hhanded, hsenders, _⟩ :=
    relayed_intact reliable_ping (Machine.reachableWhen_of_run pingRelay hs) 1
  exact ⟨s, handed, hfirst, hsecond, hhanded, hsenders⟩

end BusNet

end AsioMsg
