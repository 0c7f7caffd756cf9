import InferenceQueue.JsonText
import InferenceQueue.StreamEvents
import InferenceQueue.Subscription

namespace InferenceQueue.Subscription

open JsonText

/-- `json.Marshal` -/
def StreamMessage.marshal (m : StreamMessage) : String :=
  String.ofList (writeObject [("type".toList, m.type.toList), ("data".toList, m.data.toList)])

inductive Field
  | type
  | data
deriving DecidableEq

/-- The field of a key: by its name, or else by its name in any case. -/
def fieldOf (key : Text) : Option Field :=
  if key = "type".toList then some .type
  else if key = "data".toList then some .data
  else if key.map Char.toLower = "type".toList then some .type
  else if key.map Char.toLower = "data".toList then some .data
  else none

/-- A `null` leaves the field as it is; a value that is neither that nor a string is an error. -/
def store (m : StreamMessage) (key : Text) (value : Json) : Option StreamMessage :=
  match fieldOf key, value with
  | none, _ | some _, .null => some m
  | some .type, .string s => some { m with type := String.ofList s }
  | some .data, .string s => some { m with data := String.ofList s }
  | some _, _ => none

/-- `maxNestingDepth` of the package. -/
def maxNestingDepth : ℕ := 10000

/-- `json.Unmarshal` into an empty `streamMessage`; without a result it returns an error. Unknown
keys are passed over, and of several values for one field the last one counts. -/
def unmarshal (payload : String) : Option StreamMessage :=
  (parse maxNestingDepth payload.toList).bind fun
    | .object members => members.foldlM (fun m f => store m f.1 f.2) ⟨"", ""⟩
    | .null => some ⟨"", ""⟩
    | _ => none

/-- Whatever its texts contain, a message reads back as it was written. -/
theorem unmarshal_marshal (m : StreamMessage) : unmarshal m.marshal = some m := by
  have hparse := @parse_writeObject
    [("type".toList, m.type.toList), ("data".toList, m.data.toList)] maxNestingDepth (by decide)
  rw [unmarshal, StreamMessage.marshal, String.toList_ofList, hparse]
  simp [stringMember, store, fieldOf]

/-- A payload somebody else wrote. -/
example : unmarshal (" \x7b\"TYPE\" : \"chunk\", \"n\": [1e3, \x7b\"y\": true\x7d], " ++
    "\"data\": null, \"Data\": \"a\\u003c\\ud83d\\ude00\\udc00\" \x7d") =
      some ⟨"chunk", "a<😀\ufffd"⟩ := by decide +kernel

end InferenceQueue.Subscription
