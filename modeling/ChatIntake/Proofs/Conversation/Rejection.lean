import ChatIntake.Conversation.Rejection
import ChatIntake.Proofs.Json.RoundTrip

/-!
# Rejections in their texts

The text of a rejection tells which rejection it is. It can be read back: most texts stand
for themselves, and the others begin with words of their own, after which the role that was
sent or the index of a tool call follows. A response keeps the text whatever was sent, with
marks and control characters escaped.
-/

namespace ChatIntake.Rejection

open ChatIntake.Text
open ChatIntake.Json.Numeral (readDigits Stops readDigits_digits)

/-- The words before a role of no known name. -/
def roleWords : String := "Unsupported message role: "

/-- The words before the index of a tool call. -/
def callWords : String := "assistant tool_calls["

/-- What is said of a tool call after its index, and the fault that is meant. -/
def callFaults : List (String × (Nat → Rejection)) := [
  ("] must be an object.", callNotAnObject),
  ("] must include a non-empty 'id'.", missingCallId),
  ("] must include a 'function' object.", missingFunction),
  ("].function must include a non-empty 'name'.", missingFunctionName)]

/-- The rejections that have one text each. -/
def plain : List Rejection :=
  [notAnObject, missingRole, missingResultId] ++ Role.all.map notText

/-- The fault of a tool call, from the text that begins with its index. -/
def readCallFault (text : List Char) : Option Rejection :=
  match readDigits text with
  | none => none
  | some (digits, rest) =>
    (callFaults.lookup (String.ofList rest)).map fun fault => fault (Decimal.ofDigits digits)

/-- The rejection that a text is the text of. -/
def ofMessage? (text : String) : Option Rejection :=
  match Reader.word roleWords.toList text.toList with
  | some (_, word) => some (unknownRole (String.ofList word))
  | none =>
    match Reader.word callWords.toList text.toList with
    | some (_, rest) => readCallFault rest
    | none => plain.find? fun rejection => rejection.message == text

/-- A word is not read where another letter begins. -/
theorem word_append_of_head?_ne {first second : List Char} {c d : Char}
    (hfirst : first.head? = some c) (hsecond : second.head? = some d) (hne : d ≠ c)
    (rest : List Char) : Reader.word first (second ++ rest) = none := by
  obtain ⟨cs, rfl⟩ := List.head?_eq_some_iff.mp hfirst
  obtain ⟨ds, rfl⟩ := List.head?_eq_some_iff.mp hsecond
  simp only [List.cons_append, Reader.word, if_neg hne]

theorem ofMessage?_unknownRole (word : String) :
    ofMessage? (unknownRole word).message = some (unknownRole word) := by
  have htext : (unknownRole word).message.toList = roleWords.toList ++ word.toList := by
    rw [← String.toList_append]
    rfl
  simp only [ofMessage?, htext, Reader.word_append, String.ofList_toList]

/-- A fault of a tool call is read back by what follows the index, where no digit comes first. -/
theorem ofMessage?_callAt {rest : String} {fault : Nat → Rejection}
    (hfault : callFaults.lookup ("]" ++ rest) = some fault) (index : Nat) :
    ofMessage? (callAt index ++ rest) = some (fault index) := by
  have htext : (callAt index ++ rest).toList =
      callWords.toList ++ (Decimal.digits index ++ ("]" ++ rest).toList) := by
    have hcall : callAt index = callWords ++ Decimal.text index ++ "]" := rfl
    rw [hcall, String.append_assoc, String.append_assoc, String.toList_append,
      String.toList_append, Decimal.text, String.toList_ofList]
  have hrole (text : List Char) : Reader.word roleWords.toList (callWords.toList ++ text) = none :=
    word_append_of_head?_ne (c := 'U') (d := 'a') (by decide) (by decide) (by decide) text
  have hstops : Stops ("]" ++ rest).toList := by
    rw [String.toList_append]
    intro c hc
    cases hc
    decide
  simp only [ofMessage?, htext, hrole, Reader.word_append, readCallFault,
    readDigits_digits index hstops, String.ofList_toList, hfault, Option.map_some,
    Decimal.ofDigits_digits]

/-- A rejection is read back from its text. -/
theorem ofMessage?_message (rejection : Rejection) :
    ofMessage? rejection.message = some rejection := by
  cases rejection with
  | unknownRole word => exact ofMessage?_unknownRole word
  | callNotAnObject index => exact ofMessage?_callAt rfl index
  | missingCallId index => exact ofMessage?_callAt rfl index
  | missingFunction index => exact ofMessage?_callAt rfl index
  | missingFunctionName index => exact ofMessage?_callAt rfl index
  | notText role => cases role <;> rfl
  | notAnObject | missingRole | missingResultId => rfl

theorem message_inj {a b : Rejection} : a.message = b.message ↔ a = b := by
  constructor
  · intro h
    have hread := congrArg ofMessage? h
    rwa [ofMessage?_message, ofMessage?_message, Option.some.injEq] at hread
  · rintro rfl
    rfl

/-- A response has each key once and nothing in it but strings and a small number. -/
theorem restorable_response (rejection : Rejection) :
    rejection.response.Restorable Json.depthMax := by
  refine .object (List.nodup_singleton _) (List.forall_mem_singleton.mpr ?_)
  refine .object (show ["message", "type", "param", "code"].Nodup by decide) ?_
  simp only [List.forall_mem_cons, List.not_mem_nil, false_implies, implies_true, and_true]
  exact ⟨.string _, .string _, .string _, .whole (by decide) (by decide)⟩

/-- Rejections are told apart by their texts, and the response to a rejection is a document
that holds its text unchanged. -/
theorem told_apart_and_quoted :
    (∀ a b : Rejection, a.message = b.message ↔ a = b) ∧
    ∀ rejection : Rejection, Json.parse? rejection.response.compact =
      some (.object [("error", .object [
        ("message", .string rejection.message),
        ("type", .string "invalid_request_error"),
        ("param", .string "messages"),
        ("code", .number (.int 400))])]) :=
  ⟨fun _ _ => message_inj, fun rejection => Json.parse?_compact (restorable_response rejection)⟩

end ChatIntake.Rejection
