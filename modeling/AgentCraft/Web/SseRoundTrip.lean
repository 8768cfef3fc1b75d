import AgentCraft.Web.JsValues
import AgentCraft.Web.SseFrames

/-!
# Frames from the server to the client

`_sse_frame` of `task_sse.py` writes what `parseFrame` of `sse.js` reads. The payload of a frame is a dictionary
of values that `json.loads` has made of a line of the engine, or of a row of the database; the dictionary of
`_frame_line` has its name under the key `type`.
-/

namespace AgentCraft.Web

open AgentCraft.Python AgentCraft.Streams

/-- No half of a surrogate pair, no float that is not finite, no integer that is no double, and a sequence that
is a positive safe integer. -/
structure Portable (payload : List (List ℕ × Json)) (sequence : Option ℤ) : Prop where
  strings : (Json.obj payload).allStrings isEncodable = true
  finite : isFinite (.obj payload) = true
  doubles : hasDoubles (.obj payload) = true
  safe : ∀ s ∈ sequence, 0 < s ∧ s < 2 ^ 53

/-! ## Blocks of lines -/

section Frames

variable {name : String} {payload : List (List ℕ × Json)} {sequence : Option ℤ}

end Frames

end AgentCraft.Web
