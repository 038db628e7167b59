import AsioMsg.LinkCalls

/-!
Messages published to a client. What is no answer to a request goes to the
handlers of the client's handlerList_: the messages published to its session,
in the order in which they were posted and each once, and between them only
replies to what the client itself has published or delivered.
-/

namespace AsioMsg

variable {M F : Type}

/-- PublishHandler and DeliverHandler, with the functions registered by type name. -/
inductive MapHandler (F : Type)
  | publish (map : Bytes → Option F)
  | deliver (map : Bytes → Option F)

namespace MapHandler

/-- addHandlePublish and addHandleDeliver. -/
def addHandle (handler : MapHandler F) (typeName : Bytes) (func : F) : MapHandler F :=
  match handler with
  | .publish map => .publish (Function.update map typeName (some func))
  | .deliver map => .deliver (Function.update map typeName (some func))

end MapHandler

/-- The packages that doResponse has been through. -/
def AsioClient.processed (c : AsioClient M) : List (Package M) :=
  c.handed.take (c.handed.length - c.responses.length)

namespace Link

variable {cfg : LinkConfig M} {l : Link M}

theorem CallInv.handed_eq {c : AsioClient M} (h : CallInv cfg c) :
    c.handed = c.processed ++ c.responses := by
  obtain ⟨processed, hhanded, _⟩ := h.processed
  rw [AsioClient.processed, hhanded, List.length_append, Nat.add_sub_cancel, List.take_left]

end Link

end AsioMsg
