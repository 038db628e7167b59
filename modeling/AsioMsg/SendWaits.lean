import Mathlib.Data.List.Nodup
import AsioMsg.SendSteps

/-!
Calls of sendMessage over whole runs. The frame of a call goes through three
stages: not called back; called back, with its callback running; and done, with
isWait cleared. Only a done call returns the result of a callback, and only a
call that is not done sleeps on cond_.
-/

namespace AsioMsg

variable {M : Type}

/-- What a callback of sendMessage leaves in rspPtr. -/
def Invocation.result (inv : Invocation M) : Option M :=
  if inv.error = .eSuccess then inv.rsp.bind Package.msgPtr else none

/-- The put whose frame a callback writes to. -/
def SendCallback.res (callback : SendCallback M) : ℕ := callback.inv.res

namespace Senders

variable {cfg : ClientConfig M} {c d : AsioClient M} {b : ClientAction M}
  {sends : ℕ → Option (SendCall M)} {callbacks : List (SendCallback M)} {cond cond' : CondVar ℕ}
  {s t : Senders M} {a : SendAction M} {n : ℕ} {call call' : SendCall M}

/-- Where the caller is. -/
def Placed (c : AsioClient M) (n : ℕ) (call : SendCall M) : Prop :=
  match call.phase with
  | .posting => ∃ p ∈ c.calls, p.put = some n
  | .posted | .waiting => n ∈ c.accepted
  | .returned code rspPtr =>
    (n ∈ c.accepted ∧ call.isWait = false ∧ code = call.err ∧ rspPtr = call.rspPtr) ∨
      (n ∉ c.accepted ∧ (code = .eServiceStopped ∨ code = .eDisconnect))

/-- Every sendMessage is in its own postMessage, or posted its request, or returns a refusal. -/
structure PostInv (c : AsioClient M) (sends : ℕ → Option (SendCall M)) : Prop where
  sent : ∀ n call, sends n = some call → n < c.puts.length
  posting : ∀ p ∈ c.calls, ∀ n, p.put = some n → n < c.puts.length ∧ n ∉ c.accepted ∧
    ∀ call, sends n = some call → call.phase = .posting
  distinct : (c.calls.filterMap PackagePtr.put).Nodup
  accepted : ∀ n ∈ c.accepted, n < c.puts.length
  placed : ∀ n call, sends n = some call → Placed c n call

/-- The number of a call of postMessage leaves with it. -/
theorem PostInv.put_ne (h : PostInv c sends) {i : ℕ} {p q : PackagePtr M}
    (hget : c.calls[i]? = some p) (hput : p.put = some n) (hq : q ∈ c.calls.eraseIdx i) :
    q.put ≠ some n := by
  have hnodup := ((Pending.perm_eraseIdx hget).filterMap PackagePtr.put).nodup_iff.mpr h.distinct
  rw [List.filterMap_cons_some hput, List.nodup_cons] at hnodup
  exact fun heq => hnodup.1 (List.mem_filterMap.mpr ⟨q, hq, heq⟩)

theorem PostInv.update (h : PostInv c sends) (hsent : n < c.puts.length)
    (hposting : ∀ p ∈ c.calls, p.put = some n → call.phase = .posting)
    (hplaced : Placed c n call) : PostInv c (Function.update sends n (some call)) := by
  refine ⟨?_, ?_, h.distinct, h.accepted, ?_⟩
  · intro m other hother
    by_cases heq : m = n
    · exact heq ▸ hsent
    · rw [Function.update_of_ne heq] at hother
      exact h.sent m other hother
  · intro p hp m hm
    obtain ⟨hlt, hacc, hphase⟩ := h.posting p hp m hm
    refine ⟨hlt, hacc, fun other hother => ?_⟩
    by_cases heq : m = n
    · subst heq
      rw [Function.update_self, Option.some.injEq] at hother
      exact hother ▸ hposting p hp hm
    · rw [Function.update_of_ne heq] at hother
      exact hphase other hother
  · intro m other hother
    by_cases heq : m = n
    · subst heq
      rw [Function.update_self, Option.some.injEq] at hother
      exact hother ▸ hplaced
    · rw [Function.update_of_ne heq] at hother
      exact h.placed m other hother

/-- A call of postMessage begins. -/
theorem PostInv.postMessage (h : PostInv c sends) (build : Build M) (isOrder : Bool) (msg : M) :
    PostInv (c.postMessage build isOrder msg) sends := by
  have hlen : c.puts.length < (c.postMessage build isOrder msg).puts.length := by
    simp [AsioClient.postMessage]
  refine ⟨?_, ?_, ?_, ?_, ?_⟩
  · exact fun m call hcall => Nat.lt_trans (h.sent m call hcall) hlen
  · intro p hp m hm
    rcases List.mem_append.mp hp with hp | hp
    · exact (h.posting p hp m hm).imp_left fun hlt => Nat.lt_trans hlt hlen
    · rw [List.mem_singleton.mp hp, Option.some.injEq] at hm
      subst hm
      exact ⟨hlen, fun hacc => absurd (h.accepted _ hacc) (Nat.lt_irrefl _),
        fun call hcall => absurd (h.sent _ call hcall) (Nat.lt_irrefl _)⟩
  · have hfresh : c.puts.length ∉ c.calls.filterMap PackagePtr.put := by
      intro hmem
      obtain ⟨p, hp, hput⟩ := List.mem_filterMap.mp hmem
      exact absurd (h.posting p hp _ hput).1 (Nat.lt_irrefl _)
    simp only [AsioClient.postMessage, List.filterMap_append, List.filterMap_cons,
      List.filterMap_nil]
    exact List.nodup_append.mpr ⟨h.distinct, by simp, by
      intro m hm k hk heq
      rw [List.mem_singleton.mp hk] at heq
      exact hfresh (heq ▸ hm)⟩
  · exact fun m hm => Nat.lt_trans (h.accepted m hm) hlen
  · intro m call hcall
    have hplaced := h.placed m call hcall
    unfold Placed at hplaced ⊢
    split at hplaced
    · obtain ⟨p, hp, hput⟩ := hplaced
      exact ⟨p, List.mem_append_left _ hp, hput⟩
    · exact hplaced
    · exact hplaced
    · exact hplaced

theorem mem_accepted_postCall {i : ℕ} {p : PackagePtr M} {m : ℕ} (hput : p.put ≠ some m) :
    m ∈ (c.postCall i p).accepted ↔ m ∈ c.accepted := by
  rcases AsioClient.postCall_cases c i p with ⟨_, hacc⟩ | ⟨_, hacc⟩ <;> rw [hacc]
  rw [List.mem_append, Option.mem_toList]
  exact or_iff_left hput

/-- A call of postMessage ends; the sendMessage around it, if there is one, goes on. -/
theorem PostInv.postCall (h : PostInv c sends) {i : ℕ} {p : PackagePtr M}
    (hget : c.calls[i]? = some p) {sends' : ℕ → Option (SendCall M)}
    (hothers : ∀ m, p.put ≠ some m → sends' m = sends m)
    (hself : ∀ m call, p.put = some m → sends' m = some call → Placed (c.postCall i p) m call) :
    PostInv (c.postCall i p) sends' := by
  have hmem := List.mem_of_getElem? hget
  have hframe := AsioClient.postCall_frame c i p
  have hcalls : (c.postCall i p).calls = c.calls.eraseIdx i := by rw [hframe]
  have hputs : (c.postCall i p).puts = c.puts := by rw [hframe]
  refine ⟨?_, ?_, ?_, ?_, ?_⟩
  · intro m call hcall
    rw [hputs]
    by_cases hput : p.put = some m
    · exact (h.posting p hmem m hput).1
    · exact h.sent m call (hothers m hput ▸ hcall)
  · intro q hq m hm
    rw [hcalls] at hq
    have hput : p.put ≠ some m := fun hput => h.put_ne hget hput hq hm
    rw [hputs, mem_accepted_postCall hput, hothers m hput]
    exact h.posting q (List.mem_of_mem_eraseIdx hq) m hm
  · rw [hcalls]
    exact h.distinct.sublist ((List.eraseIdx_sublist _ _).filterMap _)
  · intro m hm
    rw [hputs]
    by_cases hput : p.put = some m
    · exact (h.posting p hmem m hput).1
    · exact h.accepted m ((mem_accepted_postCall hput).mp hm)
  · intro m call hcall
    by_cases hput : p.put = some m
    · exact hself m call hput hcall
    · rw [hothers m hput] at hcall
      have hplaced := h.placed m call hcall
      unfold Placed at hplaced ⊢
      rw [mem_accepted_postCall hput]
      split at hplaced
      · obtain ⟨q, hq, hqput⟩ := hplaced
        rcases Pending.eq_or_mem_eraseIdx hget hq with rfl | hq
        · exact absurd hqput hput
        · exact ⟨q, hcalls ▸ hq, hqput⟩
      · exact hplaced
      · exact hplaced
      · exact hplaced

/-- The call of a sendMessage that ends has posted its request or returns the refusal. -/
theorem placed_postReturn (h : PostInv c sends) {i : ℕ} {p : PackagePtr M}
    (hget : c.calls[i]? = some p) (hput : p.put = some n) (call : SendCall M) :
    Placed (c.postCall i p) n { call with
      phase := if (c.postPackage p).1 = .eSuccess then .posted
        else .returned (c.postPackage p).1 call.rspPtr } := by
  rcases AsioClient.postCall_cases c i p with ⟨hcode, hacc⟩ | ⟨hcode, hacc⟩
  · have hfail : (c.postPackage p).1 ≠ .eSuccess := by
      rcases hcode with hcode | hcode <;> simp [hcode]
    rw [if_neg hfail]
    exact Or.inr ⟨hacc ▸ (h.posting p (List.mem_of_getElem? hget) n hput).2.1, hcode⟩
  · rw [if_pos hcode]
    change n ∈ (c.postCall i p).accepted
    rw [hacc, hput]
    exact List.mem_append_right _ (List.mem_singleton.mpr rfl)

/-- A step of the client alone. -/
theorem PostInv.client (h : PostInv c sends) (hstep : AsioClient.Steps cfg c b d)
    (hforeign : ∀ i p, b = .postCall i → c.calls[i]? = some p → ∀ n, p.put = some n →
      sends n = none) : PostInv d sends := by
  rcases hstep.call_cases with ⟨hcalls, hacc⟩ | ⟨isOrder, msg, rfl⟩ | ⟨i, p, hb, hget, rfl⟩
  · have hlen := hstep.puts_initial.length_le
    obtain ⟨hsent, hposting, hdistinct, haccepted, hplaced⟩ := h
    unfold Placed at hplaced
    rw [← hcalls, ← hacc] at hposting
    rw [← hcalls] at hdistinct
    rw [← hacc] at haccepted
    simp only [← hcalls, ← hacc] at hplaced
    exact ⟨fun n call hcall => Nat.lt_of_lt_of_le (hsent n call hcall) hlen,
      fun p hp n hn => (hposting p hp n hn).imp_left fun hlt => Nat.lt_of_lt_of_le hlt hlen,
      hdistinct, fun n hn => Nat.lt_of_lt_of_le (haccepted n hn) hlen, hplaced⟩
  · exact h.postMessage cfg.build isOrder msg
  · refine h.postCall hget (fun _ _ => rfl) ?_
    intro m call hput hcall
    simp [hforeign i p hb hget m hput] at hcall

/-- Who waits on cond_, and that it waits for its callback. -/
structure WaitInv (sends : ℕ → Option (SendCall M)) (cond : CondVar ℕ) : Prop where
  threads : ∀ n, n ∈ cond.threads ↔ ∃ call, sends n = some call ∧ call.phase = .waiting
  apart : cond.threads.Nodup
  asleep : ∀ n ∈ cond.waiting, ∃ call, sends n = some call ∧ call.isWait = true

/-- The caller of `n` or its callback takes a step. -/
theorem WaitInv.update (h : WaitInv sends cond) (hapart : cond'.threads.Nodup)
    (hothers : ∀ m, m ≠ n → (m ∈ cond'.threads ↔ m ∈ cond.threads))
    (hself : n ∈ cond'.threads ↔ call.phase = .waiting)
    (hasleep : ∀ m ∈ cond'.waiting, m ≠ n → m ∈ cond.waiting)
    (hwait : n ∈ cond'.waiting → call.isWait = true) :
    WaitInv (Function.update sends n (some call)) cond' := by
  refine ⟨fun m => ?_, hapart, fun m hm => ?_⟩
  · by_cases heq : m = n
    · subst heq
      simp [hself]
    · rw [Function.update_of_ne heq, hothers m heq]
      exact h.threads m
  · by_cases heq : m = n
    · subst heq
      exact ⟨call, Function.update_self .., hwait hm⟩
    · rw [Function.update_of_ne heq]
      exact h.asleep m (hasleep m hm heq)

/-- The stages of a frame. -/
inductive Stage (c : AsioClient M) (callbacks : List (SendCallback M)) (n : ℕ)
    (call : SendCall M) : Prop
  | asked : call.isWait = true → call.rspPtr = none → ¬ c.CalledBack n → Stage c callbacks n call
  | running (callback : SendCallback M) : callback ∈ callbacks → callback.res = n →
      call.isWait = true →
      (if callback.stored then call.err = callback.inv.error ∧ call.rspPtr = callback.inv.result
        else call.rspPtr = none) → Stage c callbacks n call
  | done (inv : Invocation M) : inv ∈ c.invoked → inv.res = n →
      n ∉ callbacks.map SendCallback.res → call.isWait = false → call.err = inv.error →
      call.rspPtr = inv.result → Stage c callbacks n call

theorem Stage.frame (h : Stage c callbacks n call) (hinvoked : d.invoked = c.invoked)
    (hwait : call'.isWait = call.isWait) (herr : call'.err = call.err)
    (hrsp : call'.rspPtr = call.rspPtr) : Stage d callbacks n call' := by
  cases h with
  | asked h1 h2 h3 =>
    refine .asked (hwait.trans h1) (hrsp.trans h2) ?_
    rwa [AsioClient.CalledBack, hinvoked]
  | running callback h1 h2 h3 h4 =>
    refine .running callback h1 h2 (hwait.trans h3) ?_
    rwa [herr, hrsp]
  | done inv h1 h2 h3 h4 h5 h6 =>
    exact .done inv (hinvoked ▸ h1) h2 h3 (hwait.trans h4) (herr.trans h5) (hrsp.trans h6)

/-- A running callback is that of one call, and every call is in one of its stages. -/
structure CallbackInv (c : AsioClient M) (sends : ℕ → Option (SendCall M))
    (callbacks : List (SendCallback M)) : Prop where
  invoked : ∀ callback ∈ callbacks, callback.inv ∈ c.invoked ∧
    ∃ call, sends callback.res = some call
  single : (callbacks.map SendCallback.res).Nodup
  stage : ∀ n call, sends n = some call → Stage c callbacks n call

theorem CallbackInv.eq_of_res (h : CallbackInv c sends callbacks) {x y : SendCallback M}
    (hx : x ∈ callbacks) (hy : y ∈ callbacks) (heq : x.res = y.res) : x = y :=
  List.inj_on_of_nodup_map h.single hx hy heq

/-- The frame that a running callback writes to is still waited for. -/
theorem CallbackInv.running (h : CallbackInv c sends callbacks) {callback : SendCallback M}
    (hmem : callback ∈ callbacks) (hcall : sends callback.res = some call) :
    call.isWait = true ∧
      (if callback.stored then call.err = callback.inv.error ∧ call.rspPtr = callback.inv.result
        else call.rspPtr = none) := by
  cases h.stage _ call hcall with
  | asked _ _ hopen => exact absurd (List.mem_map_of_mem (h.invoked callback hmem).1) hopen
  | running other hother hres hwait hresult =>
    obtain rfl := h.eq_of_res hother hmem hres
    exact ⟨hwait, hresult⟩
  | done _ _ _ hno _ _ _ => exact absurd (List.mem_map_of_mem hmem) hno

/-- The caller takes a step. -/
theorem CallbackInv.update (h : CallbackInv c sends callbacks) (hinvoked : d.invoked = c.invoked)
    (hstage : Stage c callbacks n call) :
    CallbackInv d (Function.update sends n (some call)) callbacks := by
  refine ⟨?_, h.single, ?_⟩
  · intro callback hmem
    rw [hinvoked]
    refine (h.invoked callback hmem).imp_right ?_
    rintro ⟨other, hother⟩
    by_cases heq : callback.res = n
    · exact ⟨call, heq ▸ Function.update_self ..⟩
    · exact ⟨other, (Function.update_of_ne heq ..).trans hother⟩
  · intro m other hother
    by_cases heq : m = n
    · subst heq
      rw [Function.update_self, Option.some.injEq] at hother
      exact hother ▸ hstage.frame hinvoked rfl rfl rfl
    · rw [Function.update_of_ne heq] at hother
      exact (h.stage m other hother).frame hinvoked rfl rfl rfl

/-- The client invokes callbacks, those of sendMessage among them. -/
theorem CallbackInv.client (h : CallbackInv c sends callbacks) {new : List (Invocation M)}
    (hinvoked : d.invoked = c.invoked ++ new) (honce : d.OnceInv) :
    CallbackInv d sends (callbacks ++ (new.filter fun inv => (sends inv.res).isSome).map
      fun inv => { inv := inv }) := by
  have hnodup := honce.once
  rw [hinvoked, List.map_append, List.nodup_append] at hnodup
  obtain ⟨_, hnew, hapart⟩ := hnodup
  have hmem : ∀ n, n ∈ ((new.filter fun inv => (sends inv.res).isSome).map
      fun inv => ({ inv := inv } : SendCallback M)).map SendCallback.res →
        n ∈ new.map Invocation.res := by
    intro n hn
    rw [List.map_map] at hn
    exact (List.filter_sublist.map _).subset hn
  refine ⟨?_, ?_, ?_⟩
  · intro callback hcallback
    rw [hinvoked]
    rcases List.mem_append.mp hcallback with hcallback | hcallback
    · exact (h.invoked callback hcallback).imp_left (List.mem_append_left _)
    · obtain ⟨inv, hinv, rfl⟩ := List.mem_map.mp hcallback
      obtain ⟨hinv, hsome⟩ := List.mem_filter.mp hinv
      exact ⟨List.mem_append_right _ hinv, Option.isSome_iff_exists.mp hsome⟩
  · rw [List.map_append]
    refine List.nodup_append.mpr ⟨h.single, ?_, ?_⟩
    · rw [List.map_map]
      exact hnew.sublist (List.filter_sublist.map _)
    · intro n hn m hm
      obtain ⟨callback, hcallback, rfl⟩ := List.mem_map.mp hn
      exact hapart _ (List.mem_map_of_mem (h.invoked callback hcallback).1) _ (hmem m hm)
  · intro n call hcall
    cases h.stage n call hcall with
    | asked hwait hrsp hopen =>
      by_cases hcalled : n ∈ new.map Invocation.res
      · obtain ⟨inv, hinv, rfl⟩ := List.mem_map.mp hcalled
        refine .running { inv := inv } (List.mem_append_right _ (List.mem_map_of_mem ?_)) rfl hwait
          hrsp
        exact List.mem_filter.mpr ⟨hinv, by simp [hcall]⟩
      · refine .asked hwait hrsp ?_
        rw [AsioClient.CalledBack, hinvoked, List.map_append, List.mem_append]
        exact not_or.mpr ⟨hopen, hcalled⟩
    | running callback hcallback hres hwait hresult =>
      exact .running callback (List.mem_append_left _ hcallback) hres hwait hresult
    | done inv hinv hres hno hwait herr hrsp =>
      refine .done inv (hinvoked ▸ List.mem_append_left _ hinv) hres ?_ hwait herr hrsp
      rw [List.map_append, List.mem_append]
      refine not_or.mpr ⟨hno, fun hn => ?_⟩
      exact hapart n (hres ▸ List.mem_map_of_mem hinv) n (hmem n hn) rfl

/-- The callback of `n` stores its result, or clears isWait and is over. -/
theorem CallbackInv.progress (h : CallbackInv c sends callbacks)
    {callbacks' : List (SendCallback M)} (hsub : ∀ callback ∈ callbacks', callback ∈ callbacks ∨
      (callback.res = n ∧ callback.inv ∈ c.invoked))
    (hkept : ∀ callback ∈ callbacks, callback.res ≠ n → callback ∈ callbacks')
    (hsingle : (callbacks'.map SendCallback.res).Nodup) (hstage : Stage c callbacks' n call) :
    CallbackInv c (Function.update sends n (some call)) callbacks' := by
  refine ⟨?_, hsingle, ?_⟩
  · intro callback hmem
    by_cases heq : callback.res = n
    · refine ⟨?_, call, heq ▸ Function.update_self ..⟩
      exact (hsub callback hmem).elim (fun hmem => (h.invoked callback hmem).1) And.right
    · rw [Function.update_of_ne heq]
      exact h.invoked callback ((hsub callback hmem).resolve_right fun hnew => heq hnew.1)
  · intro m other hother
    by_cases heq : m = n
    · subst heq
      rw [Function.update_self, Option.some.injEq] at hother
      exact hother ▸ hstage
    · rw [Function.update_of_ne heq] at hother
      cases h.stage m other hother with
      | asked hwait hrsp hopen => exact .asked hwait hrsp hopen
      | running callback hcallback hres hwait hresult =>
        exact .running callback (hkept callback hcallback (hres ▸ heq)) hres hwait hresult
      | done inv hinv hres hno hwait herr hrsp =>
        refine .done inv hinv hres (fun hm => ?_) hwait herr hrsp
        obtain ⟨callback, hcallback, hm⟩ := List.mem_map.mp hm
        rcases hsub callback hcallback with hold | ⟨hnew, _⟩
        · exact hno (hm ▸ List.mem_map_of_mem hold)
        · exact heq (hm ▸ hnew)

theorem CallbackInv.store (h : CallbackInv c sends callbacks) {i : ℕ} {callback : SendCallback M}
    (hget : callbacks[i]? = some callback) (hstored : callback.stored = false)
    (hcall : sends callback.res = some call) :
    CallbackInv c (Function.update sends callback.res (some (call.store callback.inv)))
      (callbacks.set i { callback with stored := true }) := by
  obtain ⟨hi, heq⟩ := List.getElem?_eq_some_iff.mp hget
  have hmem := List.mem_of_getElem? hget
  obtain ⟨hwait, hresult⟩ := h.running hmem hcall
  rw [hstored, if_neg Bool.false_ne_true] at hresult
  have hmap : (callbacks.set i { callback with stored := true }).map SendCallback.res =
      callbacks.map SendCallback.res := by
    have hlt : i < (callbacks.map SendCallback.res).length := by simpa using hi
    have hself : SendCallback.res { callback with stored := true } =
        (callbacks.map SendCallback.res)[i] := by
      simp [SendCallback.res, heq]
    rw [List.map_set, hself, List.set_getElem_self]
  refine h.progress ?_ ?_ (hmap ▸ h.single) ?_
  · intro other hother
    rcases List.mem_or_eq_of_mem_set hother with hother | rfl
    · exact Or.inl hother
    · exact Or.inr ⟨rfl, (h.invoked callback hmem).1⟩
  · intro other hother hne
    refine (Pending.mem_set_or_eq hget hother).resolve_right ?_
    rintro rfl
    exact hne rfl
  · refine .running { callback with stored := true } (List.mem_set hi _) rfl hwait ?_
    rw [if_pos rfl, SendCall.store, Invocation.result, hresult]
    exact ⟨rfl, rfl⟩

theorem CallbackInv.notify (h : CallbackInv c sends callbacks) {i : ℕ} {callback : SendCallback M}
    (hget : callbacks[i]? = some callback) (hstored : callback.stored = true)
    (hcall : sends callback.res = some call) :
    CallbackInv c (Function.update sends callback.res (some { call with isWait := false }))
      (callbacks.eraseIdx i) := by
  have hmem := List.mem_of_getElem? hget
  have hperm := (Pending.perm_eraseIdx hget).map SendCallback.res
  have hnodup := hperm.nodup_iff.mpr h.single
  rw [List.map_cons, List.nodup_cons] at hnodup
  obtain ⟨_, hresult⟩ := h.running hmem hcall
  rw [if_pos hstored] at hresult
  refine h.progress (fun other hother => Or.inl (List.mem_of_mem_eraseIdx hother)) ?_ hnodup.2
    (.done callback.inv (h.invoked callback hmem).1 rfl hnodup.1 rfl hresult.1 hresult.2)
  intro other hother hne
  exact (Pending.eq_or_mem_eraseIdx hget hother).resolve_left fun heq => hne (heq ▸ rfl)

structure SendInv (s : Senders M) : Prop where
  once : s.client.OnceInv
  responses : s.client.ResponseInv
  posts : PostInv s.client s.sends
  callbacks : CallbackInv s.client s.sends s.callbacks
  waits : WaitInv s.sends s.cond
  late : ∀ n ∈ s.late, n ∉ s.client.accepted ∧
    ∃ call, s.sends n = some call ∧ call.hasReturned = true

theorem SendInv.client (h : SendInv s) (hpost : s.isPostReturn b = false)
    (hstep : AsioClient.Steps cfg s.client b c) : SendInv (s.setClient c) := by
  have honce := h.once.step hstep
  -- a call of postMessage that ends is none of a sendMessage
  have hforeign : ∀ i p, b = .postCall i → s.client.calls[i]? = some p → ∀ n, p.put = some n →
      s.sends n = none := by
    intro i p hb hget n hput
    rw [hb] at hpost
    simpa [isPostReturn, hget, hput] using hpost
  refine ⟨honce, h.responses.step h.once hstep, h.posts.client hstep hforeign, ?_, h.waits, ?_⟩
  · obtain ⟨new, hinvoked⟩ := hstep.invoked_initial
    have hdrop : c.invoked.drop s.client.invoked.length = new := by
      rw [← hinvoked, List.drop_left]
    simp only [setClient, hdrop]
    exact h.callbacks.client hinvoked.symm honce
  · intro n hn
    obtain ⟨hacc, call, hcall, hreturned⟩ := h.late n hn
    refine ⟨?_, call, hcall, hreturned⟩
    rcases hstep.call_cases with ⟨_, heq⟩ | ⟨isOrder, msg, rfl⟩ | ⟨i, p, hb, hget, rfl⟩
    · exact (show c.accepted = s.client.accepted from heq) ▸ hacc
    · exact hacc
    · refine fun hmem => hacc ((mem_accepted_postCall ?_).mp hmem)
      intro hput
      simp [hforeign i p hb hget n hput] at hcall

theorem SendInv.sendMessage (h : SendInv s) (cfg : ClientConfig M) (msg : M) :
    SendInv (s.sendMessage cfg.build msg) := by
  have hstep : AsioClient.Steps cfg s.client (.postMessage false msg) _ := .postMessage false msg
  have hlen : s.client.puts.length < (s.client.postMessage cfg.build false msg).puts.length := by
    simp [AsioClient.postMessage]
  have hnew : s.sends s.client.puts.length = none := by
    refine Option.eq_none_iff_forall_ne_some.mpr fun call hcall => ?_
    exact absurd (h.posts.sent _ call hcall) (Nat.lt_irrefl _)
  refine ⟨h.once.step hstep, h.responses.step h.once hstep, ?_, ?_, ?_, ?_⟩
  · refine (h.posts.postMessage cfg.build false msg).update hlen (fun _ _ _ => rfl) ?_
    exact ⟨_, List.mem_append_right _ (List.mem_singleton.mpr rfl), rfl⟩
  · refine h.callbacks.update rfl (.asked rfl rfl ?_)
    exact fun hcalled => absurd (h.once.lt_of_calledBack hcalled) (Nat.lt_irrefl _)
  · have hout : s.client.puts.length ∉ s.cond.threads := by
      rw [h.waits.threads]
      simp [hnew]
    refine h.waits.update h.waits.apart (fun _ _ => Iff.rfl) ?_ (fun _ hm _ => hm) (fun _ => rfl)
    exact iff_of_false hout (by simp)
  · intro n hn
    obtain ⟨hacc, call, hcall, hreturned⟩ := h.late n hn
    refine ⟨hacc, call, ?_, hreturned⟩
    refine (Function.update_of_ne ?_ ..).trans hcall
    rintro rfl
    simp [hnew] at hcall

theorem SendInv.postReturn (h : SendInv s) (cfg : ClientConfig M) {i : ℕ} {p : PackagePtr M}
    (hcall : s.sends n = some call) (hget : s.client.calls[i]? = some p) (hput : p.put = some n) :
    SendInv (s.postReturn n i call p) := by
  have hstep : AsioClient.Steps cfg s.client (.postCall i) _ := .postCall hget
  have hinvoked : (s.client.postCall i p).invoked = s.client.invoked := by
    rw [AsioClient.postCall_frame]
  have hphase := (h.posts.posting p (List.mem_of_getElem? hget) n hput).2.2 call hcall
  have hne : ∀ m, p.put ≠ some m → m ≠ n := by
    rintro m hm rfl
    exact hm hput
  refine ⟨h.once.step hstep, h.responses.step h.once hstep, ?_, ?_, ?_, ?_⟩
  · refine h.posts.postCall hget (fun m hm => Function.update_of_ne (hne m hm) ..) ?_
    intro m other hm hother
    obtain rfl : n = m := Option.some.inj (hput.symm.trans hm)
    change Function.update s.sends n _ n = some other at hother
    rw [Function.update_self, Option.some.injEq] at hother
    exact hother ▸ placed_postReturn h.posts hget hput call
  · exact h.callbacks.update hinvoked ((h.callbacks.stage n call hcall).frame rfl rfl rfl rfl)
  · have hout : n ∉ s.cond.threads := by
      rw [h.waits.threads]
      simp [hcall, hphase]
    refine h.waits.update h.waits.apart (fun _ _ => Iff.rfl) (iff_of_false hout ?_)
      (fun _ hm _ => hm) ?_
    · dsimp only
      split <;> simp
    · intro hwaiting
      exact absurd (List.mem_append_left _ hwaiting) hout
  · intro m hm
    obtain ⟨hacc, other, hother, hreturned⟩ := h.late m hm
    have hmn : m ≠ n := by
      rintro rfl
      obtain rfl := Option.some.inj (hcall.symm.trans hother)
      simp [SendCall.hasReturned, hphase] at hreturned
    refine ⟨?_, other, (Function.update_of_ne hmn ..).trans hother, hreturned⟩
    refine fun hmem => hacc ((mem_accepted_postCall ?_).mp hmem)
    rw [hput]
    exact fun heq => hmn (Option.some.inj heq).symm

/-- A caller before its lock or back from its wait. -/
theorem SendInv.locked (h : SendInv s) (hcall : s.sends n = some call)
    (hacc : n ∈ s.client.accepted) (hout : n ∉ cond.threads) (hapart : cond.threads.Nodup)
    (hothers : ∀ m, m ≠ n → (m ∈ cond.threads ↔ m ∈ s.cond.threads))
    (hasleep : ∀ m ∈ cond.waiting, m ≠ n → m ∈ s.cond.waiting) :
    SendInv ({ s with cond := cond }.locked n call) := by
  have hlt := h.posts.sent n call hcall
  have hidle : ∀ p ∈ s.client.calls, p.put ≠ some n := fun p hp hput =>
    (h.posts.posting p hp n hput).2.1 hacc
  have hlate : ∀ call', ∀ m ∈ s.late, m ∉ s.client.accepted ∧
      ∃ other, Function.update s.sends n (some call') m = some other ∧
        other.hasReturned = true := by
    intro call' m hm
    obtain ⟨hno, other, hother, hreturned⟩ := h.late m hm
    refine ⟨hno, other, (Function.update_of_ne ?_ ..).trans hother, hreturned⟩
    rintro rfl
    exact hno hacc
  have hstage := h.callbacks.stage n call hcall
  unfold Senders.locked
  split
  · next hwait =>
    refine ⟨h.once, h.responses, ?_, ?_, ?_, hlate _⟩
    · exact h.posts.update hlt (fun p hp hput => absurd hput (hidle p hp)) hacc
    · exact h.callbacks.update rfl (hstage.frame rfl rfl rfl rfl)
    · have hperm := cond.perm_wait n
      refine h.waits.update ?_ ?_ ?_ ?_ (fun _ => hwait)
      · exact hperm.nodup_iff.mpr (List.nodup_cons.mpr ⟨hout, hapart⟩)
      · intro m hm
        rw [hperm.mem_iff, List.mem_cons, or_iff_right hm]
        exact hothers m hm
      · exact iff_of_true (hperm.mem_iff.mpr (List.mem_cons_self ..)) rfl
      · intro m hm hne
        rcases List.mem_append.mp hm with hm | hm
        · exact hasleep m hm hne
        · exact absurd (List.mem_singleton.mp hm) hne
  · next hwait =>
    rw [Bool.not_eq_true] at hwait
    refine ⟨h.once, h.responses, ?_, ?_, ?_, hlate _⟩
    · exact h.posts.update hlt (fun p hp hput => absurd hput (hidle p hp))
        (Or.inl ⟨hacc, hwait, rfl, rfl⟩)
    · exact h.callbacks.update rfl (hstage.frame rfl rfl rfl rfl)
    · refine h.waits.update hapart hothers (iff_of_false hout (by simp)) hasleep ?_
      exact fun hwaiting => absurd (List.mem_append_left _ hwaiting) hout

theorem Placed.of_isWait (h : Placed c n call) (hwait : call.isWait = true)
    (hphase : call'.phase = call.phase) : Placed c n call' := by
  unfold Placed at h ⊢
  rw [hphase]
  split at h
  · exact h
  · exact h
  · exact h
  · refine Or.inr (h.resolve_left ?_)
    rintro ⟨_, hdone, _⟩
    simp [hwait] at hdone

/-- A callback writes to a frame after its return only if the request was refused. -/
theorem SendInv.late_write (h : SendInv s) (hcall : s.sends n = some call)
    (hwait : call.isWait = true) (hphase : call'.phase = call.phase) :
    ∀ m ∈ (if call.hasReturned then s.late ++ [n] else s.late), m ∉ s.client.accepted ∧
      ∃ other, Function.update s.sends n (some call') m = some other ∧
        other.hasReturned = true := by
  have hsame : call'.hasReturned = call.hasReturned := by
    rw [SendCall.hasReturned, hphase, SendCall.hasReturned]
  have hold : ∀ m ∈ s.late, m ∉ s.client.accepted ∧
      ∃ other, Function.update s.sends n (some call') m = some other ∧
        other.hasReturned = true := by
    intro m hm
    obtain ⟨hno, other, hother, hreturned⟩ := h.late m hm
    refine ⟨hno, ?_⟩
    by_cases heq : m = n
    · subst heq
      obtain rfl := Option.some.inj (hcall.symm.trans hother)
      exact ⟨call', Function.update_self .., hsame.trans hreturned⟩
    · exact ⟨other, (Function.update_of_ne heq ..).trans hother, hreturned⟩
  intro m hm
  split at hm
  · next hreturned =>
    rcases List.mem_append.mp hm with hm | hm
    · exact hold m hm
    · rw [List.mem_singleton.mp hm]
      refine ⟨?_, call', Function.update_self .., hsame.trans hreturned⟩
      have hplaced := h.posts.placed n call hcall
      unfold SendCall.hasReturned at hreturned
      unfold Placed at hplaced
      split at hreturned
      · next code rspPtr heq =>
        simp only [heq] at hplaced
        refine (hplaced.resolve_left ?_).1
        rintro ⟨_, hdone, _⟩
        simp [hwait] at hdone
      · simp at hreturned
  · exact hold m hm

theorem SendInv.posts_write (h : SendInv s) (hcall : s.sends n = some call)
    (hwait : call.isWait = true) (hphase : call'.phase = call.phase) :
    PostInv s.client (Function.update s.sends n (some call')) := by
  refine h.posts.update (h.posts.sent n call hcall) ?_
    ((h.posts.placed n call hcall).of_isWait hwait hphase)
  intro p hp hput
  rw [hphase]
  exact (h.posts.posting p hp n hput).2.2 call hcall

theorem WaitInv.mem_threads_iff (h : WaitInv sends cond) (hcall : sends n = some call) :
    n ∈ cond.threads ↔ call.phase = .waiting := by
  rw [h.threads]
  simp [hcall]

theorem SendInv.store (h : SendInv s) {i : ℕ} {callback : SendCallback M}
    (hget : s.callbacks[i]? = some callback) (hstored : callback.stored = false)
    (hcall : s.sends callback.inv.res = some call) : SendInv (s.store i callback call) := by
  have hwait := (h.callbacks.running (List.mem_of_getElem? hget) hcall).1
  have hthreads := h.waits.mem_threads_iff hcall
  refine ⟨h.once, h.responses, h.posts_write hcall hwait rfl,
    h.callbacks.store hget hstored hcall, ?_, h.late_write hcall hwait rfl⟩
  exact h.waits.update h.waits.apart (fun _ _ => Iff.rfl) hthreads (fun _ hm _ => hm)
    fun _ => hwait

theorem SendInv.notify (h : SendInv s) {i : ℕ} {callback : SendCallback M}
    (hget : s.callbacks[i]? = some callback) (hstored : callback.stored = true)
    (hcall : s.sends callback.inv.res = some call) : SendInv (s.notify i callback call) := by
  have hwait := (h.callbacks.running (List.mem_of_getElem? hget) hcall).1
  have hthreads := h.waits.mem_threads_iff hcall
  have hperm := s.cond.perm_notifyAll
  refine ⟨h.once, h.responses, h.posts_write hcall hwait rfl,
    h.callbacks.notify hget hstored hcall, ?_, h.late_write hcall hwait rfl⟩
  refine h.waits.update (hperm.nodup_iff.mpr h.waits.apart) (fun _ _ => hperm.mem_iff)
    (hperm.mem_iff.trans hthreads) ?_ ?_
  · exact fun _ hm _ => absurd hm List.not_mem_nil
  · exact fun hm => absurd hm List.not_mem_nil

theorem SendInv.step (h : SendInv s) (hstep : Steps cfg s a t) : SendInv t := by
  cases hstep with
  | client hpost hc => exact h.client hpost hc
  | sendMessage msg => exact h.sendMessage cfg msg
  | postReturn hcall hget hput => exact h.postReturn cfg hcall hget hput
  | @lock n call hcall hphase =>
    have hacc := h.posts.placed n call hcall
    unfold Placed at hacc
    rw [hphase] at hacc
    have hout : n ∉ s.cond.threads := by
      rw [h.waits.mem_threads_iff hcall, hphase]
      simp
    exact h.locked hcall hacc hout h.waits.apart (fun _ _ => Iff.rfl) (fun _ hm _ => hm)
  | @resume w n cond call hback hcall =>
    have hperm := CondVar.perm_resume hback
    have hphase := (h.waits.mem_threads_iff hcall).mp (hperm.mem_iff.mpr (List.mem_cons_self ..))
    have hacc := h.posts.placed n call hcall
    unfold Placed at hacc
    rw [hphase] at hacc
    have hnodup := List.nodup_cons.mp (hperm.nodup_iff.mp h.waits.apart)
    refine h.locked hcall hacc hnodup.1 hnodup.2 ?_ ?_
    · intro m hm
      rw [hperm.mem_iff, List.mem_cons, or_iff_right hm]
    · exact fun m hm _ => CondVar.waiting_resume hback ▸ hm
  | @rouse i cond hcond =>
    have hperm := CondVar.perm_rouse hcond
    refine ⟨h.once, h.responses, h.posts, h.callbacks, ?_, h.late⟩
    obtain ⟨_, _, rfl⟩ := Option.map_eq_some_iff.mp hcond
    exact ⟨fun m => hperm.mem_iff.trans (h.waits.threads m), hperm.nodup_iff.mpr h.waits.apart,
      fun m hm => h.waits.asleep m (List.mem_of_mem_eraseIdx hm)⟩
  | store hget hstored hcall => exact h.store hget hstored hcall
  | notify hget hstored hcall => exact h.notify hget hstored hcall

theorem sendInv_reachable (h : (machine cfg).Reachable s) : SendInv s := by
  refine Machine.Reachable.invariant (I := SendInv) ?_
    (fun _ _ _ hs ht => hs.step (.of_step ht)) h
  refine ⟨AsioClient.onceInv_init 1, ⟨?_, ?_⟩, ⟨?_, ?_, List.nodup_nil, ?_, ?_⟩,
    ⟨?_, List.nodup_nil, ?_⟩, ⟨?_, List.nodup_nil, ?_⟩, ?_⟩
  · exact fun _ hpack => absurd hpack List.not_mem_nil
  · exact fun _ hinv => absurd hinv List.not_mem_nil
  · exact fun _ _ hcall => absurd hcall (Option.some_ne_none _).symm
  · exact fun _ hp => absurd hp List.not_mem_nil
  · exact fun _ hn => absurd hn List.not_mem_nil
  · exact fun _ _ hcall => absurd hcall (Option.some_ne_none _).symm
  · exact fun _ hmem => absurd hmem List.not_mem_nil
  · exact fun _ _ hcall => absurd hcall (Option.some_ne_none _).symm
  · intro n
    simp [machine, CondVar.threads]
  · exact fun _ hn => absurd hn List.not_mem_nil
  · exact fun _ hn => absurd hn List.not_mem_nil

end Senders

end AsioMsg
