import AsioMsg.BusNet

/-!
The bus as a relay. Whatever the interleaving and wherever the reads cut the
streams, a client is handed what other clients have written, unchanged but for
the type that the bus sets, from each of them in order and nothing twice.
-/

namespace AsioMsg

variable {M : Type}

/-- The type under which the bus sends a package of the type on, if it does. -/
def relayType (msgType : BitVec 16) : Option MsgType :=
  if msgType = MsgType.REQREP.code then some .DELIVER
  else if msgType = MsgType.DELIVER.code then some .REQREP
  else if msgType = MsgType.PUBSUB.code then some .PUBSUB
  else none

def Package.relay (pac : Package M) : Option (Package M) :=
  (relayType pac.header.msgType).map pac.setMsgType

/-- What the bus makes of a package it has decoded. -/
def Package.busRelay (pac : Package M) : Option (Package M) :=
  if pac.msgPtr.isSome then none else pac.relay

/-- What preHandleMessage hands on is the package with its new type, once to each session. -/
theorem MsgBus.preHandleMessage_cases (bus : MsgBus) (id : ℤ) (pac : Package M) :
    (bus.preHandleMessage id pac).1.room = bus.room ∧
      (∀ entry ∈ (bus.preHandleMessage id pac).2,
        pac.busRelay = some entry.2 ∧ entry.1 ∈ bus.room.sessionCache) ∧
      ((bus.preHandleMessage id pac).2.map Prod.fst).Nodup := by
  have hbroadcast : ∀ p : Package M,
      (∀ entry ∈ bus.room.deliverPackage p, entry.2 = p ∧ entry.1 ∈ bus.room.sessionCache) ∧
        ((bus.room.deliverPackage p).map Prod.fst).Nodup := by
    intro p
    rw [SessionRoom.map_fst_deliverPackage]
    refine ⟨fun entry hentry => ⟨SessionRoom.snd_of_mem_deliverPackage hentry, ?_⟩,
      SessionRoom.receivers_nodup _ _⟩
    have hmem := List.mem_map_of_mem (f := Prod.fst) hentry
    rw [SessionRoom.map_fst_deliverPackage] at hmem
    exact ((SessionRoom.mem_receivers ..).mp hmem).1
  cases hptr : pac.msgPtr with
  | some msg => simp [preHandleMessage, hptr]
  | none =>
    have hrelay : pac.busRelay = pac.relay := by simp [Package.busRelay, hptr]
    by_cases hreqrep : pac.header.msgType = MsgType.REQREP.code
    · rw [bus.preHandleMessage_reqrep id hptr hreqrep, hrelay, Package.relay, relayType,
        if_pos hreqrep]
      obtain ⟨hall, hnodup⟩ := hbroadcast (pac.setMsgType .DELIVER)
      exact ⟨rfl, fun entry hentry => ⟨congrArg some (hall entry hentry).1.symm,
        (hall entry hentry).2⟩, hnodup⟩
    · by_cases hdeliver : pac.header.msgType = MsgType.DELIVER.code
      · rw [bus.preHandleMessage_deliver id hptr hdeliver, hrelay, Package.relay, relayType,
          if_neg hreqrep, if_pos hdeliver]
        refine ⟨rfl, ?_, ?_⟩
        · intro entry hentry
          simp only [SessionRoom.deliverPackageTo] at hentry
          split at hentry
          · split at hentry
            · next hjoined =>
              rw [List.mem_singleton.mp hentry]
              exact ⟨rfl, hjoined⟩
            · simp at hentry
          · simp at hentry
        · simp only [SessionRoom.deliverPackageTo]
          split
          · split <;> simp
          · simp
      · by_cases hpubsub : pac.header.msgType = MsgType.PUBSUB.code
        · rw [bus.preHandleMessage_pubsub id hptr hpubsub, hrelay, Package.relay, relayType,
            if_neg hreqrep, if_neg hdeliver, if_pos hpubsub]
          have hsame : pac.setMsgType .PUBSUB = pac := by
            rw [Package.setMsgType, ← hpubsub]
          obtain ⟨hall, hnodup⟩ := hbroadcast pac
          rw [Option.map_some, hsame]
          exact ⟨rfl, fun entry hentry => ⟨congrArg some (hall entry hentry).1.symm,
            (hall entry hentry).2⟩, hnodup⟩
        · simp [preHandleMessage, hptr, hreqrep, hdeliver, hpubsub]

/-- Whatever is no reply goes to all the providers of its type. -/
theorem MsgBus.preHandleMessage_broadcast (bus : MsgBus) (id : ℤ) {pac p : Package M}
    (hrelay : pac.busRelay = some p) (htype : p.header.msgType ≠ MsgType.REQREP.code) :
    (bus.preHandleMessage id pac).2 = bus.room.deliverPackage p := by
  obtain ⟨hptr, hsome⟩ := Option.ite_none_left_eq_some.mp hrelay
  have hptr : pac.msgPtr = none := by simpa using hptr
  obtain ⟨t, ht, rfl⟩ := Option.map_eq_some_iff.mp hsome
  by_cases hreqrep : pac.header.msgType = MsgType.REQREP.code
  · rw [relayType, if_pos hreqrep] at ht
    obtain rfl := Option.some.inj ht
    rw [bus.preHandleMessage_reqrep id hptr hreqrep]
  · by_cases hdeliver : pac.header.msgType = MsgType.DELIVER.code
    · rw [relayType, if_neg hreqrep, if_pos hdeliver] at ht
      obtain rfl := Option.some.inj ht
      exact absurd rfl htype
    · rw [relayType, if_neg hreqrep, if_neg hdeliver] at ht
      obtain ⟨hpubsub, ht⟩ := Option.ite_none_right_eq_some.mp ht
      obtain rfl := Option.some.inj ht
      rw [bus.preHandleMessage_pubsub id hptr hpubsub, Package.setMsgType, ← hpubsub]

/-- A package of the name that goes to all the providers. -/
def Package.Broadcast (name : Bytes) (pac : Package M) : Bool :=
  decide (pac.typeName = name ∧ pac.header.msgType ≠ MsgType.REQREP.code)

/-- The package that a client decodes from the frame of a package that the bus posts. -/
def BusConfig.seen (cfg : BusConfig M) (pac : Package M) : Package M :=
  match ((cfg.build.withBus false).decode cfg.memory
      (Buffer.empty.append ((cfg.server.bytesOf pac).getD []))).value.1 with
  | .package p => p
  | _ => pac

/-- The bus posts a frame for the package, and a client can read it. -/
def BusConfig.Readable (cfg : BusConfig M) (pac : Package M) : Prop :=
  ∃ f : WireFrame, cfg.server.bytesOf pac = some f.bytes ∧
    (cfg.build.withBus false).Delivers f (cfg.seen pac)

theorem BusConfig.seen_eq {cfg : BusConfig M} {pac p : Package M} {f : WireFrame}
    (hbytes : cfg.server.bytesOf pac = some f.bytes)
    (hdel : (cfg.build.withBus false).Delivers f p) : cfg.seen pac = p := by
  obtain ⟨left, hvalue, _⟩ := hdel cfg.memory (Buffer.empty.append f.bytes) [] (by
    rw [Buffer.readable_empty_append, ← WireFrame.seek_bytes, List.append_nil])
  rw [BusConfig.seen, hbytes, Option.getD_some, hvalue]

/-- A posted package as a buffer, with the package that a client makes of it. -/
def BusConfig.announce (cfg : BusConfig M) (post : BusPost M) : Outbound M × Package M :=
  (⟨none, (cfg.server.bytesOf post.pac).getD []⟩, cfg.seen post.pac)

namespace BusNet

variable {cfg : BusConfig M} {s t : BusNet M}

def postedTo (s : BusNet M) (k : ℕ) : List (BusPost M) :=
  s.posted.filter fun post => decide (post.receiver = k)

/-- What the bus and its clients rely on: protobuf and zlib undo themselves. -/
structure Reliable (cfg : BusConfig M) : Prop where
  parse : cfg.build.protobuf.ParseUndoesSerialize
  zlib : cfg.build.zlib.UncompressUndoesCompress

/-- The ways from the bus to the clients. -/
structure DownInv (cfg : BusConfig M) (s : BusNet M) : Prop where
  order : Server.Inv cfg.server s.server
  joined : ∀ id ∈ s.bus.room.sessionCache, 0 < id
  readable : ∀ post ∈ s.posted, cfg.Readable post.pac
  down : ∀ k, ∃ transit, Downlink (cfg.build.withBus false) (cfg.clientMemory k)
    (s.server.outbox k) (s.server.sessions k).started ((s.postedTo k).map cfg.announce)
    (s.peers k).client.handed transit (s.peers k).client.readBuffer (s.peers k).down

/-- Another state of a client and its connection. -/
theorem DownInv.setPeer (h : DownInv cfg s) {k : ℕ} {peer : BusPeer M}
    (hpeer : ∃ transit, Downlink (cfg.build.withBus false) (cfg.clientMemory k)
      (s.server.outbox k) (s.server.sessions k).started ((s.postedTo k).map cfg.announce)
      peer.client.handed transit peer.client.readBuffer peer.down) :
    DownInv cfg (s.setPeer k peer) := by
  refine ⟨h.order, h.joined, h.readable, ?_⟩
  exact (Function.forall_update_iff s.peers fun k (peer : BusPeer M) => ∃ transit,
    Downlink (cfg.build.withBus false) (cfg.clientMemory k) (s.server.outbox k)
      (s.server.sessions k).started ((s.postedTo k).map cfg.announce) peer.client.handed transit
      peer.client.readBuffer peer.down).mpr ⟨hpeer, fun i _ => h.down i⟩

/-- A step of io_ that posts nothing. -/
theorem DownInv.setServer (h : DownInv cfg s) {server : Server M} {a : ServerAction M}
    (hstep : s.server.step cfg.server a = some server)
    (hout : server.outbox = s.server.outbox) : DownInv cfg (s.setServer server) := by
  have horder := h.order.step hstep
  refine ⟨horder, h.joined, h.readable, fun k => ?_⟩
  obtain ⟨transit, hdown⟩ := h.down k
  obtain ⟨transit', hdown'⟩ := hdown.server [] (by simp)
    (by rw [List.map_nil, List.append_nil]; exact congrFun hout k) (h.order.started_outbox k)
    (horder.started_outbox k) (Server.started_initial hstep k)
  rw [List.append_nil] at hdown'
  exact ⟨transit', hdown'⟩

/-- A package that a client can read is posted behind the others. -/
theorem DownInv.postPackage (h : DownInv cfg s) {sender : Option ℕ} {receiver : ℕ}
    {pac : Package M} (hread : cfg.Readable pac)
    (hstep : s.postPackage cfg sender receiver pac = some t) :
    DownInv cfg t ∧ t.bus = s.bus ∧ t.peers = s.peers ∧
      t.posted = s.posted ++ [⟨receiver, sender, pac⟩] := by
  have hread' := hread
  obtain ⟨f, hbytes, hdel⟩ := hread
  have hbytes' := hbytes
  unfold BusNet.postPackage at hstep
  rw [ServerConfig.bytesOf, Build.bytesOf] at hbytes
  split at hstep
  · next sent out henc =>
    obtain rfl := Option.some.inj hstep
    let next : Server M :=
      { s.server with posts := s.server.posts ++ [(receiver, ⟨none, out.readable⟩)] }
    have horder : Server.Inv cfg.server next := h.order.post receiver _ fun _ => rfl
    refine ⟨⟨horder, h.joined, ?_, fun k => ?_⟩, rfl, rfl, rfl⟩
    · intro post hpost
      rcases List.mem_append.mp hpost with hpost | hpost
      · exact h.readable post hpost
      · rw [List.mem_singleton.mp hpost]
        exact hread'
    · obtain ⟨transit, hdown⟩ := h.down k
      have hbuffer : (cfg.announce ⟨receiver, sender, pac⟩).1 = ⟨none, out.readable⟩ := by
        rw [BusConfig.announce, ServerConfig.bytesOf, Build.bytesOf_of_frame henc,
          Option.getD_some]
      let more : List (BusPost M) := if receiver = k then [⟨receiver, sender, pac⟩] else []
      have hmore : ∀ x ∈ more.map cfg.announce, ∃ f : WireFrame,
          x.1.buffer = f.bytes ∧ (cfg.build.withBus false).Delivers f x.2 := by
        intro x hx
        obtain ⟨post, hpost, rfl⟩ := List.mem_map.mp hx
        obtain ⟨_, hpost⟩ := (List.mem_ite_nil_right ..).mp hpost
        rw [List.mem_singleton.mp hpost]
        exact ⟨f, by rw [BusConfig.announce, hbytes', Option.getD_some], hdel⟩
      have hout : next.outbox k = s.server.outbox k ++ (more.map cfg.announce).map Prod.fst := by
        rw [Server.outbox_post]
        by_cases hk : receiver = k
        · simp only [more, if_pos hk, List.map_singleton, hbuffer]
        · simp only [more, if_neg hk, List.map_nil]
      obtain ⟨transit', hdown'⟩ := hdown.server (more.map cfg.announce) hmore hout
        (h.order.started_outbox k) (horder.started_outbox k) List.prefix_rfl
      rw [← List.map_append, List.drop_length, List.map_nil, List.flatten_nil,
        List.append_nil] at hdown'
      have hposted : postedTo { s with posted := s.posted ++ [⟨receiver, sender, pac⟩] } k =
          s.postedTo k ++ more := by
        by_cases hk : receiver = k <;> simp [postedTo, more, hk]
      rw [← hposted] at hdown'
      exact ⟨transit', hdown'⟩
  · next henc => simp [henc] at hbytes
  · simp at hstep

/-- The packages that a session's package is handed on as, posted one after the other. -/
theorem DownInv.postPackages {j : ℕ} {entries : List (ℤ × Package M)} (h : DownInv cfg s)
    (hread : ∀ entry ∈ entries, cfg.Readable entry.2)
    (hstep : postPackages cfg j s entries = some t) :
    DownInv cfg t ∧ t.bus = s.bus ∧ t.peers = s.peers ∧
      t.posted = s.posted ++
        entries.map fun entry => ⟨sessionNumber entry.1, some j, entry.2⟩ := by
  induction entries generalizing s with
  | nil =>
    obtain rfl := Option.some.inj hstep
    exact ⟨h, rfl, rfl, (List.append_nil _).symm⟩
  | cons entry rest ih =>
    rw [BusNet.postPackages] at hstep
    obtain ⟨u, hu, hrest⟩ := Option.bind_eq_some_iff.mp hstep
    obtain ⟨hinv, hbus, hpeers, hposted⟩ := h.postPackage (hread entry List.mem_cons_self) hu
    obtain ⟨hinv', hbus', hpeers', hposted'⟩ :=
      ih hinv (fun e he => hread e (List.mem_cons_of_mem _ he)) hrest
    refine ⟨hinv', hbus'.trans hbus, hpeers'.trans hpeers, ?_⟩
    rw [hposted', hposted, List.append_assoc]
    rfl

/-- What of some posts brings packages of the j-th session to the k-th. -/
def between (posts : List (BusPost M)) (j k : ℕ) : List (Package M) :=
  (posts.filter fun post => decide (post.receiver = k ∧ post.sender = some j)).map BusPost.pac

theorem between_eq (s : BusNet M) (j k : ℕ) : between s.posted j k =
    ((s.postedTo k).filter fun post => decide (post.sender = some j)).map BusPost.pac := by
  rw [between, postedTo, List.filter_filter]
  simp only [Bool.decide_and, Bool.and_comm]

theorem between_append (posts more : List (BusPost M)) (j k : ℕ) :
    between (posts ++ more) j k = between posts j k ++ between more j k := by
  rw [between, List.filter_append, List.map_append]
  rfl

/-- Posts that come from somewhere else. -/
theorem between_eq_nil {posts : List (BusPost M)} {j : ℕ}
    (h : ∀ post ∈ posts, post.sender ≠ some j) (k : ℕ) : between posts j k = [] := by
  rw [between, List.map_eq_nil_iff, List.filter_eq_nil_iff]
  intro post hpost heq
  exact h post hpost (of_decide_eq_true heq).2

theorem between_eq_nil_of_sender {posts : List (BusPost M)} {i j : ℕ}
    (h : ∀ post ∈ posts, post.sender = some i) (hne : i ≠ j) (k : ℕ) : between posts j k = [] :=
  between_eq_nil (fun post hpost heq => hne (Option.some.inj ((h post hpost).symm.trans heq))) k

/-- A package is handed to each session at most once. -/
theorem between_sublist {pac : Package M} {entries : List (ℤ × Package M)}
    (hall : ∀ entry ∈ entries, pac.busRelay = some entry.2 ∧ 0 < entry.1)
    (hnodup : (entries.map Prod.fst).Nodup) (j k : ℕ) :
    (between (entries.map fun entry => ⟨sessionNumber entry.1, some j, entry.2⟩) j k).Sublist
      pac.busRelay.toList := by
  induction entries with
  | nil => exact List.nil_sublist _
  | cons entry rest ih =>
    obtain ⟨hfresh, hrest⟩ := List.nodup_cons.mp hnodup
    obtain ⟨hpac, hpos⟩ := hall entry List.mem_cons_self
    rw [List.map_cons, ← List.singleton_append, between_append]
    by_cases hk : sessionNumber entry.1 = k
    · have hnone : between (rest.map fun entry => ⟨sessionNumber entry.1, some j, entry.2⟩) j k =
          [] := by
        rw [between, List.map_eq_nil_iff, List.filter_eq_nil_iff]
        intro post hpost heq
        obtain ⟨other, hother, rfl⟩ := List.mem_map.mp hpost
        refine hfresh (List.mem_map.mpr ⟨other, hother, ?_⟩)
        exact sessionNumber_inj (hall other (List.mem_cons_of_mem _ hother)).2 hpos
          ((of_decide_eq_true heq).1.trans hk.symm)
      rw [hnone, hpac]
      simp [between, hk]
    · have hnone : between [⟨sessionNumber entry.1, some j, entry.2⟩] j k = [] := by
        simp [between, hk]
      rw [hnone, List.nil_append]
      exact ih (fun e he => hall e (List.mem_cons_of_mem _ he)) hrest

/-- A provider in the room is handed what is broadcast under the name. -/
theorem between_broadcast {bus : MsgBus} (hjoined : ∀ id ∈ bus.room.sessionCache, 0 < id)
    {name : Bytes} {k : ℕ} (hk : sessionId k ∈ bus.room.receivers (bus.room.deliverCache name))
    (j : ℕ) (pac : Package M) :
    (between ((bus.preHandleMessage (sessionId j) pac).2.map fun entry =>
        ⟨sessionNumber entry.1, some j, entry.2⟩) j k).filter (Package.Broadcast name) =
      pac.busRelay.toList.filter (Package.Broadcast name) := by
  obtain ⟨_, hall, hnodup⟩ := bus.preHandleMessage_cases (sessionId j) pac
  have hsub := between_sublist
    (fun entry hentry => (hall entry hentry).imp_right (hjoined entry.1)) hnodup j k
  cases hrelay : pac.busRelay with
  | none =>
    rw [hrelay, Option.toList_none, List.sublist_nil] at hsub
    rw [hsub]
    rfl
  | some p =>
    rw [hrelay, Option.toList_some] at hsub
    rw [Option.toList_some]
    by_cases hp : p.Broadcast name = true
    · obtain ⟨hname, htype⟩ := of_decide_eq_true hp
      have hentry : (sessionId k, p) ∈ (bus.preHandleMessage (sessionId j) pac).2 := by
        rw [bus.preHandleMessage_broadcast (sessionId j) hrelay htype]
        exact List.mem_map.mpr ⟨sessionId k, hname ▸ hk, rfl⟩
      have hpost : p ∈ between ((bus.preHandleMessage (sessionId j) pac).2.map fun entry =>
          ⟨sessionNumber entry.1, some j, entry.2⟩) j k := by
        refine List.mem_map.mpr ⟨_, List.mem_filter.mpr ⟨List.mem_map_of_mem hentry, ?_⟩, rfl⟩
        exact decide_eq_true ⟨sessionNumber_sessionId k, rfl⟩
      rw [hsub.eq_of_length_le (List.length_pos_of_mem hpost)]
    · have hnone : [p].filter (Package.Broadcast name) = [] := by simp [hp]
      rw [hnone, ← List.sublist_nil, ← hnone]
      exact hsub.filter _

/-- What the bus makes of the packages that a session has decoded. -/
theorem DownInv.preHandleMessages {j : ℕ} {items : List (Package M)} (h : DownInv cfg s)
    (hread : ∀ pac ∈ items, ∀ p ∈ pac.busRelay, cfg.Readable p)
    (hstep : preHandleMessages cfg j s items = some t) :
    DownInv cfg t ∧ t.peers = s.peers ∧ ∃ more, t.posted = s.posted ++ more ∧
      (∀ post ∈ more, post.sender = some j) ∧
      (∀ k, (between more j k).Sublist (items.filterMap Package.busRelay)) ∧
      ∀ name k, sessionId k ∈ s.bus.room.receivers (s.bus.room.deliverCache name) →
        (between more j k).filter (Package.Broadcast name) =
          (items.filterMap Package.busRelay).filter (Package.Broadcast name) := by
  induction items generalizing s with
  | nil =>
    obtain rfl := Option.some.inj hstep
    exact ⟨h, rfl, [], (List.append_nil _).symm, by simp, fun k => List.nil_sublist _,
      fun name k _ => rfl⟩
  | cons pac rest ih =>
    obtain ⟨hroom, hall, hnodup⟩ := s.bus.preHandleMessage_cases (sessionId j) pac
    obtain ⟨u, hu, hrest⟩ := Option.bind_eq_some_iff.mp hstep
    have hbus : DownInv cfg { s with bus := (s.bus.preHandleMessage (sessionId j) pac).1 } :=
      ⟨h.order, fun id hid => h.joined id (hroom ▸ hid), h.readable, h.down⟩
    obtain ⟨hinv, hsame, hpeers, hposted⟩ := hbus.postPackages (fun entry hentry =>
      hread pac List.mem_cons_self _ (hall entry hentry).1) hu
    obtain ⟨hinv', hpeers', more, hposted', hsender, hmore, hbroadcast⟩ :=
      ih hinv (fun p hp => hread p (List.mem_cons_of_mem _ hp)) hrest
    have hsplit : (pac :: rest).filterMap Package.busRelay =
        pac.busRelay.toList ++ rest.filterMap Package.busRelay := by
      cases hrelay : pac.busRelay <;> simp [hrelay]
    refine ⟨hinv', hpeers'.trans hpeers, _, by rw [hposted', hposted, List.append_assoc],
      ?_, ?_, ?_⟩
    · intro post hpost
      rcases List.mem_append.mp hpost with hpost | hpost
      · obtain ⟨entry, _, rfl⟩ := List.mem_map.mp hpost
        rfl
      · exact hsender post hpost
    · intro k
      have hfirst := between_sublist
        (fun entry hentry => (hall entry hentry).imp_right (h.joined entry.1)) hnodup j k
      rw [between_append, hsplit]
      exact hfirst.append (hmore k)
    · intro name k hk
      have hk' : sessionId k ∈ u.bus.room.receivers (u.bus.room.deliverCache name) := by
        rw [hsame, hroom]
        exact hk
      rw [between_append, hsplit, List.filter_append, List.filter_append,
        between_broadcast h.joined hk, hbroadcast name k hk']

end BusNet

end AsioMsg
