import MxSdk.Vendor.Json.Parser
import MxSdk.Vendor.Json.LexerSpec

/-! The strings and keys inside a value. `dump` succeeds when all are well-formed
UTF-8, and what `parse` returns holds no others. -/

namespace MxSdk.Json
open Utf8

mutual
def strings : Json → List Bytes
  | string s => [s]
  | array elements => stringsOfElements elements
  | object members => stringsOfMembers members
  | _ => []

def stringsOfElements : List Json → List Bytes
  | [] => []
  | x :: elements => strings x ++ stringsOfElements elements

def stringsOfMembers : List (Bytes × Json) → List Bytes
  | [] => []
  | (key, value) :: members => key :: (strings value ++ stringsOfMembers members)
end

def AllWellFormed (ss : List Bytes) : Prop := ∀ s ∈ ss, WellFormed s

theorem allWellFormed_append {ss ts : List Bytes} :
    AllWellFormed (ss ++ ts) ↔ AllWellFormed ss ∧ AllWellFormed ts := by
  simp only [AllWellFormed, List.mem_append]
  exact ⟨fun h => ⟨fun s hs => h s (.inl hs), fun s hs => h s (.inr hs)⟩,
    fun h s hs => hs.elim (h.1 s) (h.2 s)⟩

theorem allWellFormed_cons {s : Bytes} {ss : List Bytes} :
    AllWellFormed (s :: ss) ↔ WellFormed s ∧ AllWellFormed ss := by
  simp [AllWellFormed]

section Dump
variable [Platform]

mutual
theorem dump_ok : ∀ {j : Json}, AllWellFormed (strings j) → ∃ text, dump j = .ok text
  | null, _ => ⟨_, rfl⟩
  | boolean _, _ => ⟨_, rfl⟩
  | numberUnsigned _, _ => ⟨_, rfl⟩
  | numberInteger _, _ => ⟨_, rfl⟩
  | numberFloat _, _ => ⟨_, rfl⟩
  | string s, h => by
    rw [dump, dumpEscaped_ok (h s List.mem_cons_self)]
    exact ⟨_, rfl⟩
  | array [], _ => ⟨_, rfl⟩
  | array (x :: elements), h => by
    obtain ⟨hx, hrest⟩ := allWellFormed_append.mp h
    obtain ⟨t, ht⟩ := dump_ok hx
    obtain ⟨u, hu⟩ := dumpElements_ok hrest
    rw [dump, ht, hu]
    exact ⟨_, rfl⟩
  | object [], _ => ⟨_, rfl⟩
  | object ((key, value) :: members), h => by
    obtain ⟨hkey, h⟩ := allWellFormed_cons.mp h
    obtain ⟨hvalue, hrest⟩ := allWellFormed_append.mp h
    obtain ⟨t, ht⟩ := dump_ok hvalue
    obtain ⟨u, hu⟩ := dumpMembers_ok hrest
    rw [dump, dumpEscaped_ok hkey, ht, hu]
    exact ⟨_, rfl⟩

theorem dumpElements_ok : ∀ {elements : List Json}, AllWellFormed (stringsOfElements elements) →
    ∃ text, dumpElements elements = .ok text
  | [], _ => ⟨_, rfl⟩
  | x :: elements, h => by
    obtain ⟨hx, hrest⟩ := allWellFormed_append.mp h
    obtain ⟨t, ht⟩ := dump_ok hx
    obtain ⟨u, hu⟩ := dumpElements_ok hrest
    rw [dumpElements, ht, hu]
    exact ⟨_, rfl⟩

theorem dumpMembers_ok : ∀ {members : List (Bytes × Json)},
    AllWellFormed (stringsOfMembers members) → ∃ text, dumpMembers members = .ok text
  | [], _ => ⟨_, rfl⟩
  | (key, value) :: members, h => by
    obtain ⟨hkey, h⟩ := allWellFormed_cons.mp h
    obtain ⟨hvalue, hrest⟩ := allWellFormed_append.mp h
    obtain ⟨t, ht⟩ := dump_ok hvalue
    obtain ⟨u, hu⟩ := dumpMembers_ok hrest
    rw [dumpMembers, dumpEscaped_ok hkey, ht, hu]
    exact ⟨_, rfl⟩
end

end Dump

theorem mem_stringsOfMembers {s : Bytes} {members : List (Bytes × Json)} :
    s ∈ stringsOfMembers members ↔ ∃ e ∈ members, s = e.1 ∨ s ∈ strings e.2 := by
  induction members with
  | nil => simp [stringsOfMembers]
  | cons e members ih => simp [stringsOfMembers, ih, or_assoc]

theorem allWellFormed_assign {key : Bytes} {value : Json} {members : List (Bytes × Json)}
    (hkey : WellFormed key) (hvalue : AllWellFormed (strings value))
    (h : AllWellFormed (stringsOfMembers members)) :
    AllWellFormed (stringsOfMembers (OrderedMap.assign key value members)) := by
  intro s hs
  obtain ⟨e, he, hs⟩ := mem_stringsOfMembers.mp hs
  rcases OrderedMap.mem_assign he with rfl | he
  · rcases hs with rfl | hs
    · exact hkey
    · exact hvalue s hs
  · exact h s (mem_stringsOfMembers.mpr ⟨e, he, hs⟩)

theorem allWellFormed_push {elements : List Json} {x : Json}
    (h : AllWellFormed (stringsOfElements elements)) (hx : AllWellFormed (strings x)) :
    AllWellFormed (stringsOfElements (elements ++ [x])) := by
  induction elements with
  | nil => simpa [stringsOfElements] using hx
  | cons y elements ih =>
    obtain ⟨hy, hrest⟩ := allWellFormed_append.mp h
    exact allWellFormed_append.mpr ⟨hy, ih hrest⟩

def Frame.strings : Frame → List Bytes
  | .array elements => stringsOfElements elements
  | .object members key => key :: stringsOfMembers members

/-- The strings in a stack of open containers and in the tokens to come. -/
structure Clean (stack : List Frame) (ts : List Token) : Prop where
  frames : ∀ frame ∈ stack, AllWellFormed frame.strings
  tokens : ∀ s, .valueString s ∈ ts → WellFormed s

theorem Clean.tail {stack : List Frame} {t : Token} {ts : List Token} (h : Clean stack (t :: ts)) :
    Clean stack ts :=
  ⟨h.frames, fun s hs => h.tokens s (List.mem_cons_of_mem t hs)⟩

theorem Clean.head {stack : List Frame} {s : Bytes} {ts : List Token}
    (h : Clean stack (.valueString s :: ts)) : WellFormed s :=
  h.tokens s List.mem_cons_self

theorem Clean.push {stack : List Frame} {ts : List Token} (h : Clean stack ts) {frame : Frame}
    (hf : AllWellFormed frame.strings) : Clean (frame :: stack) ts :=
  ⟨fun g hg => by
    rcases List.mem_cons.mp hg with rfl | hg
    · exact hf
    · exact h.frames g hg, h.tokens⟩

theorem Clean.pop {stack : List Frame} {frame : Frame} {ts : List Token}
    (h : Clean (frame :: stack) ts) : AllWellFormed frame.strings ∧ Clean stack ts :=
  ⟨h.frames frame List.mem_cons_self, fun g hg => h.frames g (List.mem_cons_of_mem frame hg),
    h.tokens⟩

theorem parse_strings :
    (∀ stack ts, Clean stack ts → ∀ j, parseValue stack ts = some j → AllWellFormed (strings j)) ∧
      ∀ stack value ts, Clean stack ts → AllWellFormed (strings value) →
        ∀ j, parseState stack value ts = some j → AllWellFormed (strings j) := by
  have hnone : AllWellFormed [] := fun s hs => by cases hs
  apply parseValue.mutual_induct
  case case1 => exact fun stack ts ih h j hj => ih h.tail.tail hnone j hj
  case case2 =>
    intro stack key ts ih h j hj
    exact ih (h.tail.tail.tail.push (allWellFormed_cons.mpr ⟨h.tail.head, hnone⟩)) j hj
  case case3 => exact fun stack ts ih h j hj => ih h.tail.tail hnone j hj
  case case4 =>
    intro stack ts hne ih h j hj
    refine ih (h.tail.push hnone) j ?_
    cases ts with
    | nil => exact hj
    | cons t ts => rwa [parseValue_beginArray fun ht => hne ts (by rw [ht])] at hj
  case case5 => exact fun stack x ts ih h j hj => ih h.tail hnone j hj
  case case6 => exact fun stack ts ih h j hj => ih h.tail hnone j hj
  case case7 => exact fun stack ts ih h j hj => ih h.tail hnone j hj
  case case8 => exact fun stack ts ih h j hj => ih h.tail hnone j hj
  case case9 => exact fun stack n ts ih h j hj => ih h.tail hnone j hj
  case case10 =>
    exact fun stack s ts ih h j hj => ih h.tail (allWellFormed_cons.mpr ⟨h.head, hnone⟩) j hj
  case case11 => exact fun stack n ts ih h j hj => ih h.tail hnone j hj
  case case12 =>
    intro ts stack h1 h2 h3 h4 h5 h6 h7 h8 h9 h10 h11 h j hj
    rw [parseValue] at hj
    all_goals first | cases hj | assumption
  case case13 =>
    intro value ts h hvalue j hj
    rwa [← Option.some.inj hj]
  case case14 =>
    intro elements stack value ts ih h hvalue j hj
    obtain ⟨hframe, hstack⟩ := h.pop
    exact ih (hstack.tail.push (allWellFormed_push hframe hvalue)) j hj
  case case15 =>
    intro elements stack value ts ih h hvalue j hj
    obtain ⟨hframe, hstack⟩ := h.pop
    exact ih hstack.tail (allWellFormed_push hframe hvalue) j hj
  case case16 =>
    intro members key stack value next ts ih h hvalue j hj
    obtain ⟨hframe, hstack⟩ := h.pop
    obtain ⟨hkey, hmembers⟩ := allWellFormed_cons.mp hframe
    refine ih (hstack.tail.tail.tail.push (allWellFormed_cons.mpr ⟨hstack.tail.head, ?_⟩)) j hj
    exact allWellFormed_assign hkey hvalue hmembers
  case case17 =>
    intro members key stack value ts ih h hvalue j hj
    obtain ⟨hframe, hstack⟩ := h.pop
    obtain ⟨hkey, hmembers⟩ := allWellFormed_cons.mp hframe
    exact ih hstack.tail (allWellFormed_assign hkey hvalue hmembers) j hj
  case case18 =>
    intro ts stack value h1 h2 h3 h4 h5 h hvalue j hj
    rw [parseState] at hj
    all_goals first | cases hj | assumption

theorem parse_wellFormed {text : Bytes} {j : Json} (h : parse text = some j) :
    AllWellFormed (strings j) :=
  parse_strings.1 [] (tokenStream text)
    ⟨fun _ hf => absurd hf List.not_mem_nil, fun _ hs => tokenStream_wellFormed hs⟩ j h

end MxSdk.Json
