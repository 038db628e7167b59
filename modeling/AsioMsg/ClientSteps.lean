import AsioMsg.Lib.Pending
import AsioMsg.AsioClient

/-!
What a step of the client can do. A step is enabled by what it takes out of
the state; every handler changes the fields it names and no others.
-/

namespace AsioMsg

variable {M : Type}

/-- encode writes a frame for the package. -/
def ClientConfig.encodes (cfg : ClientConfig M) (pacPtr : PackagePtr M) : Bool :=
  (cfg.build.encode cfg.memory cfg.enableCompressSize pacPtr.pac Buffer.empty).isFrame

/-- The writes startWrite() starts for a list: that of the front package, if it encodes. -/
def ClientConfig.started (cfg : ClientConfig M) : List (PackagePtr M) → List (PackagePtr M)
  | [] => []
  | pacPtr :: _ => if cfg.encodes pacPtr then [pacPtr] else []

namespace AsioClient

variable {cfg : ClientConfig M} {c d : AsioClient M}

/-- The steps with what enables them. -/
inductive Steps (cfg : ClientConfig M) (c : AsioClient M) : ClientAction M → AsioClient M → Prop
  | postMessage (isOrder : Bool) (msg : M) :
      Steps cfg c (.postMessage isOrder msg) (c.postMessage cfg.build isOrder msg)
  | postCall {i : ℕ} {call : PackagePtr M} : c.calls[i]? = some call →
      Steps cfg c (.postCall i) (c.postCall i call)
  | publishMessage (msg : M) :
      Steps cfg c (.publishMessage msg) (c.publishMessage cfg.build msg)
  | postPackage (pac : Package M) : Steps cfg c (.postPackage pac) (c.postPackage ⟨pac, none⟩).2
  | stop : Steps cfg c .stop c.stop
  | startWrite {i : ℕ} {pacPtr : PackagePtr M} {d : AsioClient M} :
      c.posted[i]? = some (.startWrite pacPtr) →
      { c with posted := c.posted.eraseIdx i }.startWrite cfg pacPtr = some d →
      Steps cfg c (.runPosted i) d
  | doClose {i : ℕ} : c.posted[i]? = some .doClose →
      Steps cfg c (.runPosted i) ({ c with posted := c.posted.eraseIdx i }.doClose cfg)
  | doConnect (success : Bool) : 0 < c.connects →
      Steps cfg c (.doConnect success) (c.doConnect cfg success)
  | readError : 0 < c.reads → Steps cfg c .readError c.readError
  | doRead {chunk : Bytes} {d : AsioClient M} : 0 < c.reads → c.doRead cfg chunk = some d →
      Steps cfg c (.doRead chunk) d
  | writeDone {i : ℕ} {success : Bool} {pacPtr : PackagePtr M} {d : AsioClient M} :
      c.writes[i]? = some pacPtr → c.writeDone cfg i success pacPtr = some d →
      Steps cfg c (.writeDone i success) d
  | timerAborted {i : ℕ} {wait : BitVec 32 × ℕ} : c.timers[i]? = some wait →
      (c.requestMessage.cache wait.1).map RequestData.res ≠ some wait.2 →
      Steps cfg c (.timerAborted i) { c with timers := c.timers.eraseIdx i }
  | timerExpired {i : ℕ} {wait : BitVec 32 × ℕ} : c.timers[i]? = some wait →
      Steps cfg c (.timerExpired i) (c.timerExpired i wait)
  | doResponse {pack : Package M} {rest : List (Package M)} : c.responses = pack :: rest →
      Steps cfg c .doResponse (c.doResponse pack rest)

theorem Steps.of_ioStep {a : ClientAction M} (h : c.ioStep cfg a = some d) : Steps cfg c a d := by
  cases a with
  | runPosted i =>
    obtain ⟨handler, hget, hrun⟩ := Option.bind_eq_some_iff.mp h
    cases handler with
    | startWrite pacPtr => exact .startWrite hget hrun
    | doClose =>
      obtain rfl := Option.some.inj hrun
      exact .doClose hget
  | doConnect success =>
    obtain ⟨hpos, hd⟩ := Option.ite_none_right_eq_some.mp h
    obtain rfl := Option.some.inj hd
    exact .doConnect success hpos
  | readError =>
    obtain ⟨hpos, hd⟩ := Option.ite_none_right_eq_some.mp h
    obtain rfl := Option.some.inj hd
    exact .readError hpos
  | doRead chunk =>
    obtain ⟨hpos, hd⟩ := Option.ite_none_right_eq_some.mp h
    exact .doRead hpos hd
  | writeDone i success =>
    obtain ⟨pacPtr, hget, hd⟩ := Option.bind_eq_some_iff.mp h
    exact .writeDone hget hd
  | timerAborted i =>
    obtain ⟨wait, hget, hd⟩ := Option.bind_eq_some_iff.mp h
    obtain ⟨hgone, hd⟩ := Option.ite_none_left_eq_some.mp hd
    obtain rfl := Option.some.inj hd
    exact .timerAborted hget hgone
  | timerExpired i =>
    obtain ⟨wait, hget, rfl⟩ := Option.map_eq_some_iff.mp h
    exact .timerExpired hget
  | doResponse =>
    simp only [ioStep] at h
    split at h
    · simp at h
    · next pack rest hresponses =>
      obtain rfl := Option.some.inj h
      exact .doResponse hresponses
  | postMessage isOrder msg => simp [ioStep] at h
  | postCall i => simp [ioStep] at h
  | publishMessage msg => simp [ioStep] at h
  | postPackage pac => simp [ioStep] at h
  | stop => simp [ioStep] at h

theorem Steps.of_step {a : ClientAction M} (h : c.step cfg a = some d) : Steps cfg c a d := by
  cases a with
  | postMessage isOrder msg =>
    obtain rfl := Option.some.inj h
    exact .postMessage isOrder msg
  | postCall i =>
    obtain ⟨call, hget, rfl⟩ := Option.map_eq_some_iff.mp h
    exact .postCall hget
  | publishMessage msg =>
    obtain rfl := Option.some.inj h
    exact .publishMessage msg
  | postPackage pac =>
    obtain rfl := Option.some.inj h
    exact .postPackage pac
  | stop =>
    obtain rfl := Option.some.inj h
    exact .stop
  | runPosted | doConnect | readError | doRead | writeDone | timerAborted | timerExpired
  | doResponse => exact .of_ioStep (Option.ite_none_left_eq_some.mp h).2

/-- Posting adds at most the startWrite of the package. -/
theorem postPackage_eq (c : AsioClient M) (package : PackagePtr M) :
    c.postPackage package = (.eServiceStopped, c) ∨ c.postPackage package = (.eDisconnect, c) ∨
      c.postPackage package =
        (.eSuccess, { c with posted := c.posted ++ [.startWrite package] }) := by
  unfold postPackage
  split
  · exact Or.inl rfl
  · split
    · exact Or.inr (Or.inl rfl)
    · exact Or.inr (Or.inr rfl)

theorem postPackage_frame (c : AsioClient M) (package : PackagePtr M) :
    (c.postPackage package).2 = { c with posted := (c.postPackage package).2.posted } := by
  rcases postPackage_eq c package with h | h | h <;> rw [h]

/-- The call posts and returns eSuccess, or it returns an error. -/
theorem postCall_eq (c : AsioClient M) (i : ℕ) (call : PackagePtr M) :
    c.postCall i call = { c with calls := c.calls.eraseIdx i } ∨
      c.postCall i call = { c with
        calls := c.calls.eraseIdx i
        posted := c.posted ++ [.startWrite call]
        accepted := c.accepted ++ call.put.toList } := by
  unfold postCall
  rcases postPackage_eq { c with calls := c.calls.eraseIdx i } call with h | h | h <;> rw [h]
  · exact Or.inl rfl
  · exact Or.inl rfl
  · exact Or.inr rfl

theorem publishMessage_frame (b : Build M) (c : AsioClient M) (msg : M) :
    c.publishMessage b msg =
      { c with id := c.id + 1, posted := (c.publishMessage b msg).posted } :=
  postPackage_frame ..

theorem doConnect_frame (cfg : ClientConfig M) (c : AsioClient M) (success : Bool) :
    c.doConnect cfg success = { c with
      isOnline := success
      connects := (c.doConnect cfg success).connects
      reads := (c.doConnect cfg success).reads
      received := (c.doConnect cfg success).received } := by
  unfold doConnect
  split
  · rfl
  · split <;> rfl

theorem doClose_frame (cfg : ClientConfig M) (c : AsioClient M) :
    c.doClose cfg = { c with isOnline := false, connects := (c.doClose cfg).connects } := by
  simp only [doClose]
  split <;> rfl

theorem timerExpired_invoked (c : AsioClient M) (i : ℕ) (wait : BitVec 32 × ℕ) :
    (c.timerExpired i wait).invoked =
      c.invoked ++ (c.requestMessage.onTimeout wait.1).1.toList :=
  rfl

theorem doResponse_invoked (c : AsioClient M) (pack : Package M) (rest : List (Package M)) :
    (c.doResponse pack rest).invoked =
      c.invoked ++ (c.requestMessage.doResponse pack).1.toList :=
  rfl

theorem startWriteFront_eq (h : c.startWriteFront cfg = some d) :
    d = { c with writes := c.writes ++ cfg.started c.pendingList } := by
  unfold startWriteFront at h
  split at h
  · simp at h
  · next p rest hlist =>
    have hstarted : cfg.started c.pendingList = if cfg.encodes p then [p] else [] := by
      rw [hlist]
      rfl
    rw [hstarted, ClientConfig.encodes]
    split at h
    · next henc =>
      rw [henc]
      exact (Option.some.inj h).symm
    · next henc =>
      rw [henc, if_neg (by simp [Encoded.isFrame]), List.append_nil]
      exact (Option.some.inj h).symm
    · simp at h

/-- A package is appended, and written at once if it is the only one. -/
theorem startWrite_eq {p : PackagePtr M} (h : c.startWrite cfg p = some d) :
    d = { c with
      pendingList := c.pendingList ++ [p]
      writes := c.writes ++ if c.pendingList = [] then cfg.started [p] else [] } := by
  by_cases hlist : c.pendingList = []
  · rw [startWrite, if_neg (by simp [hlist])] at h
    rw [if_pos hlist]
    have hd := startWriteFront_eq h
    rwa [hlist] at hd ⊢
  · rw [startWrite, if_pos (by simp [hlist])] at h
    rw [if_neg hlist, List.append_nil]
    exact (Option.some.inj h).symm

/-- After an error the list stays as it is; otherwise the front is removed and the next written. -/
theorem writeDone_eq {i : ℕ} {success : Bool} {p : PackagePtr M}
    (h : c.writeDone cfg i success p = some d) :
    (success = false ∧
      d = ({ c with writes := c.writes.eraseIdx i }.startTimer p.pac.header.msgId).close) ∨
    (success = true ∧
      d = { c.startTimer p.pac.header.msgId with
        pendingList := c.pendingList.tail
        writes := c.writes.eraseIdx i ++ cfg.started c.pendingList.tail }) := by
  cases success with
  | false => exact Or.inl ⟨rfl, (Option.some.inj h).symm⟩
  | true =>
    refine Or.inr ⟨rfl, ?_⟩
    unfold writeDone at h
    simp only [if_true] at h
    by_cases hlist : c.pendingList.tail = []
    · rw [if_pos (by simpa [startTimer] using hlist), Option.some.injEq] at h
      rw [← h, hlist, ClientConfig.started, List.append_nil]
      simp only [startTimer, hlist]
    · rw [if_neg (by simpa [startTimer] using hlist)] at h
      exact startWriteFront_eq h

/-- A call of postMessage or publishMessage. -/
def takesId : ClientAction M → Bool
  | .postMessage .. | .publishMessage .. => true
  | _ => false

/-- What a step does to the requests: nothing, or it takes an entry out and invokes its callback,
or it puts a request. -/
inductive RequestStep (c d : AsioClient M) : Prop
  | same : d.requestMessage = c.requestMessage → d.puts = c.puts → d.invoked = c.invoked →
      RequestStep c d
  | pick (msgid : BitVec 32) (call : Option (Invocation M)) :
      d.requestMessage = (c.requestMessage.pick msgid).2 → d.puts = c.puts →
      d.invoked = c.invoked ++ call.toList →
      call.map Invocation.res = (c.requestMessage.cache msgid).map RequestData.res →
      RequestStep c d
  | put (p : Package M) : d.requestMessage = c.requestMessage.put p c.puts.length →
      d.puts = c.puts ++ [p] → d.invoked = c.invoked → RequestStep c d

section Requests

variable {a : ClientAction M}

theorem Steps.id_requests (h : Steps cfg c a d) :
    d.id = (if takesId a then c.id + 1 else c.id) ∧ RequestStep c d := by
  cases h with
  | postMessage isOrder msg => exact ⟨rfl, .put _ rfl rfl rfl⟩
  | @postCall i call _ =>
    rcases postCall_eq c i call with hd | hd <;> rw [hd] <;> exact ⟨rfl, .same rfl rfl rfl⟩
  | publishMessage msg =>
    rw [publishMessage_frame]
    exact ⟨rfl, .same rfl rfl rfl⟩
  | postPackage pac =>
    rw [postPackage_frame]
    exact ⟨rfl, .same rfl rfl rfl⟩
  | startWrite _ hrun =>
    obtain rfl := startWrite_eq hrun
    exact ⟨rfl, .same rfl rfl rfl⟩
  | doClose _ =>
    rw [doClose_frame]
    exact ⟨rfl, .same rfl rfl rfl⟩
  | doConnect success _ =>
    rw [doConnect_frame]
    exact ⟨rfl, .same rfl rfl rfl⟩
  | doRead _ hread =>
    obtain ⟨_, hd⟩ := Option.ite_none_left_eq_some.mp hread
    obtain rfl := Option.some.inj hd
    exact ⟨rfl, .same rfl rfl rfl⟩
  | writeDone _ hdone =>
    rcases writeDone_eq hdone with ⟨_, rfl⟩ | ⟨_, rfl⟩ <;> exact ⟨rfl, .same rfl rfl rfl⟩
  | stop | readError _ | timerAborted _ _ => exact ⟨rfl, .same rfl rfl rfl⟩
  | @timerExpired i wait _ =>
    refine ⟨rfl, .pick wait.1 _ rfl rfl (c.timerExpired_invoked i wait) ?_⟩
    rw [RequestMessage.onTimeout_eq, Option.map_map]
    rfl
  | @doResponse pack rest _ =>
    refine ⟨rfl, ?_⟩
    by_cases htype : pack.header.msgType = MsgType.REQREP.code
    · have heq := c.requestMessage.doResponse_eq htype
      refine .pick pack.header.msgId _ (congrArg Prod.snd heq) rfl
        (c.doResponse_invoked pack rest) ?_
      rw [heq, Option.map_map]
      rfl
    · have heq := c.requestMessage.doResponse_other htype
      refine .same (congrArg Prod.snd heq) rfl ?_
      rw [c.doResponse_invoked pack rest, heq]
      exact List.append_nil _

theorem Steps.id_eq (h : Steps cfg c a d) : d.id = if takesId a then c.id + 1 else c.id :=
  h.id_requests.1

theorem Steps.requests (h : Steps cfg c a d) : RequestStep c d := h.id_requests.2

end Requests

end AsioClient

end AsioMsg
