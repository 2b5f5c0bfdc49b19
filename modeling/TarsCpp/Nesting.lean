import Mathlib.Tactic

/-!
# Properly nested tags

Sequences of opening and closing tags with leaves between them.  A grammar says
which are properly nested, and a stack of the names that are still to be closed
decides it.
-/

namespace TarsCpp

namespace Nesting

inductive Tag (ν ι : Type)
  | leaf (item : ι)
  | opening (name : ν)
  | closing (name : ν)
deriving DecidableEq, Repr

variable {ν ι : Type}

/-- Every element is closed by a tag that matches the one that opens it. -/
inductive Nested (matched : ν → ν → Prop) (good : ι → Prop) :
    List (Tag ν ι) → Prop
  | nil : Nested matched good []
  | leaf {item : ι} {rest : List (Tag ν ι)} :
      good item → Nested matched good rest →
      Nested matched good (.leaf item :: rest)
  | element {opened closed : ν} {body rest : List (Tag ν ι)} :
      matched opened closed → Nested matched good body →
      Nested matched good rest →
      Nested matched good (.opening opened :: (body ++ .closing closed :: rest))

variable {matched : ν → ν → Prop} {good : ι → Prop} {tags : List (Tag ν ι)}

/-- The tags of a nested sequence may match in another way. -/
theorem Nested.imp {matched' : ν → ν → Prop}
    (nested : Nested matched good tags)
    (also : ∀ opened closed, .closing closed ∈ tags →
      matched opened closed → matched' opened closed) :
    Nested matched' good tags := by
  induction nested with
  | nil => exact .nil
  | leaf holds _ ih =>
      apply Nested.leaf holds
      apply ih
      intro opened closed member
      exact also opened closed (List.mem_cons_of_mem _ member)
  | @element opened closed body rest holds _ _ inside behind =>
      refine .element (also _ _ ?_ holds) (inside ?_) (behind ?_)
      · exact List.mem_cons_of_mem _ (List.mem_append_right _ List.mem_cons_self)
      · intro opened closed member
        exact also _ _ (List.mem_cons_of_mem _ (List.mem_append_left _ member))
      · intro opened closed member
        exact also _ _ (List.mem_cons_of_mem _
          (List.mem_append_right _ (List.mem_cons_of_mem _ member)))

/-- A closing tag in a nested sequence matches an opening one. -/
theorem Nested.of_closing (nested : Nested matched good tags) {closed : ν}
    (member : .closing closed ∈ tags) : ∃ opened, matched opened closed := by
  induction nested with
  | nil => cases member
  | leaf _ _ ih =>
      apply ih
      rcases List.mem_cons.mp member with here | later
      · cases here
      · exact later
  | @element opened closed' body rest holds _ _ inside behind =>
      rcases List.mem_cons.mp member with here | later
      · cases here
      · rcases List.mem_append.mp later with within | later
        · exact inside within
        · rcases List.mem_cons.mp later with here | later
          · cases here
            exact ⟨opened, holds⟩
          · exact behind later

/-- Nested sequences, each closed by the next of the names. -/
def Unwinds (matched : ν → ν → Prop) (good : ι → Prop) :
    List ν → List (Tag ν ι) → Prop
  | [], tags => Nested matched good tags
  | name :: names, tags =>
      ∃ body rest, tags = body ++ .closing name :: rest ∧
        Nested matched good body ∧ Unwinds matched good names rest

theorem Unwinds.leaf {names : List ν} {item : ι} (holds : good item)
    (unwinds : Unwinds matched good names tags) :
    Unwinds matched good names (.leaf item :: tags) := by
  cases names with
  | nil => exact Nested.leaf holds unwinds
  | cons name names =>
      obtain ⟨body, rest, split, nested, behind⟩ := unwinds
      exact ⟨.leaf item :: body, rest, congrArg _ split, .leaf holds nested,
        behind⟩

theorem Unwinds.element {names : List ν} {opened closed : ν}
    (holds : matched opened closed)
    (unwinds : Unwinds matched good (closed :: names) tags) :
    Unwinds matched good names (.opening opened :: tags) := by
  obtain ⟨body, rest, rfl, nested, behind⟩ := unwinds
  cases names with
  | nil => exact Nested.element holds nested behind
  | cons name names =>
      obtain ⟨body', rest', rfl, nested', behind'⟩ := behind
      refine ⟨.opening opened :: (body ++ .closing closed :: body'), rest', ?_,
        .element holds nested nested', behind'⟩
      simp

section Stack

variable [DecidableEq ν] [DecidablePred good] {key : ν → ν}

/-- The names that are still to be closed, or nothing if a tag does not fit.
The key of an opening tag is the name that closes it. -/
def close (key : ν → ν) (good : ι → Prop) [DecidablePred good] :
    List ν → List (Tag ν ι) → Option (List ν)
  | names, [] => some names
  | names, .leaf item :: rest =>
      if good item then close key good names rest else none
  | names, .opening name :: rest => close key good (key name :: names) rest
  | [], .closing _ :: _ => none
  | expected :: names, .closing name :: rest =>
      if name = expected then close key good names rest else none

theorem close_append (names : List ν) (front back : List (Tag ν ι)) :
    close key good names (front ++ back) =
      (close key good names front).bind (close key good · back) := by
  induction front generalizing names with
  | nil => rfl
  | cons tag front ih =>
      cases tag with
      | leaf item =>
          rw [List.cons_append, close, close]
          split
          · exact ih names
          · rfl
      | opening name => exact ih (key name :: names)
      | closing name =>
          cases names with
          | nil => rfl
          | cons expected names =>
              rw [List.cons_append, close, close]
              split
              · exact ih names
              · rfl

theorem Nested.close
    (nested : Nested (fun opened closed => key opened = closed) good tags)
    (names : List ν) : close key good names tags = some names := by
  induction nested generalizing names with
  | nil => rfl
  | leaf holds _ ih =>
      rw [Nesting.close, if_pos holds]
      exact ih names
  | @element opened closed body rest holds _ _ inside behind =>
      rw [Nesting.close, close_append, inside, Option.bind_some,
        Nesting.close, if_pos holds.symm]
      exact behind names

theorem unwinds_of_close {names : List ν}
    (closed : close key good names tags = some []) :
    Unwinds (fun opened closed => key opened = closed) good names tags := by
  induction tags generalizing names with
  | nil =>
      cases closed
      exact .nil
  | cons tag tags ih =>
      cases tag with
      | leaf item =>
          rw [close] at closed
          split at closed
          · next holds => exact (ih closed).leaf holds
          · cases closed
      | opening name => exact Unwinds.element rfl (ih closed)
      | closing name =>
          cases names with
          | nil => cases closed
          | cons expected names =>
              rw [close] at closed
              split at closed
              · next same =>
                  exact ⟨[], tags, by rw [same]; rfl, .nil, ih closed⟩
              · cases closed

/-- The stack is empty in the end exactly for nested sequences. -/
theorem close_eq_nil_iff :
    close key good [] tags = some [] ↔
      Nested (fun opened closed => key opened = closed) good tags :=
  ⟨unwinds_of_close, fun nested => nested.close []⟩

end Stack

def Tag.isOpening : Tag ν ι → Bool
  | .opening _ => true
  | _ => false

def Tag.isClosing : Tag ν ι → Bool
  | .closing _ => true
  | _ => false

/-- As many tags close elements as open them. -/
theorem Nested.countP_eq (nested : Nested matched good tags) :
    tags.countP Tag.isOpening = tags.countP Tag.isClosing := by
  induction nested with
  | nil => rfl
  | leaf _ _ ih => exact ih
  | element _ _ _ inside behind =>
      simp [List.countP_cons, List.countP_append, Tag.isOpening,
        Tag.isClosing, inside, behind]
      omega

end Nesting

end TarsCpp
