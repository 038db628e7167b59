import AsioMsg.BusRelay

/-!
What a provider is handed when nothing is under way any more. If the k-th
session stays in the room and subscribed to a name, then its client has been
handed every package of the name that the bus broadcasts, from each client all
that it has written.
-/

namespace AsioMsg

variable {M : Type}

namespace BusNet

variable {cfg : BusConfig M} {s t : BusNet M} {name : Bytes} {k : ℕ}

/-- The k-th session provides the name whenever the bus reads from a client. -/
def Provides (name : Bytes) (k : ℕ) (s : BusNet M) : BusNetAction M → Prop
  | .doRead .. => sessionId k ∈ s.bus.room.receivers (s.bus.room.deliverCache name)
  | _ => True

instance (name : Bytes) (k : ℕ) (s : BusNet M) (a : BusNetAction M) :
    Decidable (Provides name k s a) :=
  match a with
  | .doRead .. =>
    inferInstanceAs (Decidable (sessionId k ∈ s.bus.room.receivers (s.bus.room.deliverCache name)))
  | .client .. | .room _ | .postPackage .. | .runPost | .doWrite .. =>
    inferInstanceAs (Decidable True)

/-- The k-th session has been posted all that is to be broadcast under the name. -/
def Complete (name : Bytes) (k : ℕ) (s : BusNet M) : Prop :=
  ∀ j, (between s.posted j k).filter (Package.Broadcast name) =
    ((s.peers j).decoded.filterMap Package.busRelay).filter (Package.Broadcast name)

theorem Complete.step (h : Complete name k s) (hinv : Inv cfg s) (hrel : Reliable cfg)
    {a : BusNetAction M} (hok : Orderly cfg s a) (hprovides : Provides name k s a)
    (hstep : s.step cfg a = some t) : Complete name k t := by
  cases a with
  | client i a =>
    obtain ⟨_, hmap⟩ := Option.ite_none_right_eq_some.mp hstep
    obtain ⟨c, _, rfl⟩ := Option.map_eq_some_iff.mp hmap
    exact (Function.forall_update_iff s.peers fun j (peer : BusPeer M) =>
      (between s.posted j k).filter (Package.Broadcast name) =
        (peer.decoded.filterMap Package.busRelay).filter (Package.Broadcast name)).mpr
      ⟨h i, fun j _ => h j⟩
  | doRead i chunk =>
    obtain ⟨_, _, items, more, hdecoded, hposted, hsender, _, hbroadcast⟩ :=
      hinv.doRead_cases hrel hstep
    intro j
    rw [hdecoded, hposted, between_append, List.filterMap_append, List.filter_append,
      List.filter_append, h j]
    by_cases hj : j = i
    · subst hj
      rw [if_pos rfl, hbroadcast name k hprovides]
    · rw [if_neg hj, between_eq_nil_of_sender hsender (Ne.symm hj)]
      rfl
  | room call =>
    obtain rfl := Option.some.inj hstep
    exact h
  | postPackage i pac =>
    obtain ⟨_, _, hpeers, hposted⟩ := hinv.down.postPackage (hrel.own hok).1 hstep
    intro j
    have hnone : between [BusPost.mk i none pac] j k = [] := between_eq_nil (by simp) k
    rw [hpeers, hposted, between_append, hnone, List.append_nil]
    exact h j
  | runPost =>
    obtain ⟨server, _, rfl⟩ := Option.map_eq_some_iff.mp hstep
    exact h
  | doWrite i n success =>
    obtain ⟨server, _, rfl⟩ := Option.map_eq_some_iff.mp hstep
    exact h

/-- Nothing is under way from the bus to the k-th client. -/
structure Quiet (k : ℕ) (s : BusNet M) : Prop where
  posts : ∀ post ∈ s.server.posts, post.1 ≠ k
  writeDeque : (s.server.sessions k).writeDeque = []
  down : (s.peers k).down = []

/-- Then the client has been handed all that was posted to it. -/
theorem DownInv.handed_all (h : DownInv cfg s) (hquiet : Quiet k s) :
    (s.peers k).client.handed = (s.postedTo k).map fun post => cfg.seen post.pac := by
  obtain ⟨transit, hdown⟩ := h.down k
  rw [hquiet.down] at hdown
  rw [(hdown.handed_all (h.order.started_eq hquiet.posts hquiet.writeDeque)).2, List.map_map]
  rfl

end BusNet

end AsioMsg
