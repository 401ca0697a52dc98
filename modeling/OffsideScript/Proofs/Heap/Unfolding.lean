/-
This file says which tree a value unfolds to when a container that stands inside itself is cut, and shows
that rendering writes this tree, whatever the containers of a heap share and however they lead back.
-/

import OffsideScript.Heap.Render
import Mathlib.Data.List.Perm.Subperm
import Mathlib.Logic.Relation

namespace OffsideScript

/-- The container that a value refers to. -/
def Value.container? : Value → Option Container
  | .array ref => some (.array ref)
  | .map ref => some (.map ref)
  | _ => none

/-- The pairs of a list, which holds the keys of a map and after each of them its value. -/
def Container.pairs : List String → List String
  | key :: value :: rest => (key ++ " => " ++ value) :: pairs rest
  | _ => []

/-- The form of a container whose parts are written in order. -/
def Container.enclose : Container → List String → String
  | .array _, parts => "[" ++ String.intercalate ", " parts ++ "]"
  | .map _, parts => "\x7b" ++ String.intercalate ", " (pairs parts) ++ "\x7d"

namespace Heap

/-- The form of a value that holds no other values. -/
def word? (heap : Heap) : Value → Option String
  | .nihl => some "nihl"
  | .boolean value => some (if value then "true" else "false")
  | .number value => some (Number.text value)
  | .text value => some ("'" ++ value ++ "'")
  | .function ref => some ("<func " ++ heap.functionName ref ++ ">")
  | .builtin ref => some ("<builtin " ++ ref.name ++ ">")
  | .array _ => none
  | .map _ => none

/-- The elements of an array, or the keys of a map and after each of them its value. -/
def parts (heap : Heap) : Container → List Value
  | .array ref => (heap.array ref).toList
  | .map ref => (heap.map ref).entries.toList.flatMap fun entry => [entry.1, entry.2]

/-- One container is a part of another. -/
def Holds (heap : Heap) (outer inner : Container) : Prop :=
  ∃ value ∈ heap.parts outer, value.container? = some inner

/-- A container can be come to from a value. -/
def Leads (heap : Heap) (value : Value) (container : Container) : Prop :=
  ∃ first, value.container? = some first ∧ Relation.ReflTransGen heap.Holds first container

/-- A container is in the heap. -/
def Has (heap : Heap) : Container → Prop
  | .array ref => ref.index < heap.arrays.size
  | .map ref => ref.index < heap.maps.size

/-- A container that a value refers to is in the heap. -/
def Knows (heap : Heap) (value : Value) : Prop :=
  ∀ container ∈ value.container?, heap.Has container

/-- No reference in a container leads out of the heap. -/
def IsClosed (heap : Heap) : Prop :=
  ∀ container, ∀ value ∈ heap.parts container, heap.Knows value

end Heap

/-- A finite tree whose leaves are words and the places where it is cut. -/
inductive Unfolding where
  | word (text : String)
  | cut
  | node (container : Container) (branches : List Unfolding)

namespace Unfolding

mutual

/-- What is written for a tree. -/
def text : Unfolding → String
  | .word text => text
  | .cut => "[Circular]"
  | .node container branches => container.enclose (texts branches)

def texts : List Unfolding → List String
  | [] => []
  | branch :: rest => branch.text :: texts rest

end

mutual

/-- A tree shows a value below the given containers. It is cut at a container that is among them, and
only there. -/
def Shows (heap : Heap) (path : List Container) (value : Value) : Unfolding → Prop
  | .word text => heap.word? value = some text
  | .cut => ∃ container ∈ path, value.container? = some container
  | .node container branches =>
      value.container? = some container ∧ container ∉ path ∧
        ShowsAll heap (container :: path) (heap.parts container) branches

def ShowsAll (heap : Heap) (path : List Container) : List Value → List Unfolding → Prop
  | [], [] => True
  | value :: values, branch :: rest => branch.Shows heap path value ∧ ShowsAll heap path values rest
  | _, _ => False

end

mutual

/-- Nothing is cut. -/
def IsWhole : Unfolding → Prop
  | .word _ => True
  | .cut => False
  | .node _ branches => AreWhole branches

def AreWhole : List Unfolding → Prop
  | [] => True
  | branch :: rest => branch.IsWhole ∧ AreWhole rest

end

end Unfolding

/-- The pairs of a map are written with an arrow between key and value. -/
theorem Container.pairs_flatMap (entries : List (Value × Value)) (write : Value → String) :
    pairs ((entries.flatMap fun entry => [entry.1, entry.2]).map write) =
      entries.map fun entry => write entry.1 ++ " => " ++ write entry.2 := by
  induction entries with
  | nil => rfl
  | cons entry rest ih => simp [pairs, ih]

namespace Heap

variable {heap : Heap} {value : Value} {container : Container} {path : List Container}

/-- A container has more than one word. -/
theorem word?_eq_none (held : value.container? = some container) : heap.word? value = none := by
  cases value <;> first | rfl | cases held

/-- A value that is no container is written as one word and leaves the stack alone. -/
theorem renderWithin_single (depth : Nat) (path : List Container) (single : value.container? = none) :
    ∃ text, heap.word? value = some text ∧ heap.renderWithin depth value path = (text, path) := by
  cases value <;> cases depth <;> first | exact ⟨_, rfl, rfl⟩ | cases single

/-- Without depth left, a container is not written. -/
theorem renderWithin_zero (held : value.container? = some container) :
    heap.renderWithin 0 value path = ("[Circular]", path) := by
  cases value <;> cases held <;> rfl

/-- What is written with a stack. -/
def textWithin (heap : Heap) (depth : Nat) (path : List Container) (value : Value) : String :=
  (heap.renderWithin depth value path).1

/-- An action on the stack goes on with the result and the stack of the one before it. -/
theorem run_bind {α β : Type} {first : StateM (List Container) α}
    {next : α → StateM (List Container) β} {result : α} {after : List Container}
    (ran : first path = (result, after)) : (first >>= next) path = next result after := by
  change next (first path).1 (first path).2 = _
  rw [ran]

/-- Writing inside of a container leaves the stack as it was if the content leaves it as it found it. -/
theorem Writer.inside_eq {content : Writer} {text : String}
    (written : content (container :: path) = (text, container :: path)) :
    Writer.inside container content path =
      (if container ∈ path then "[Circular]" else text, path) := by
  change (if path.contains container then _ else _ : Writer) path = _
  by_cases again : container ∈ path
  · rw [if_pos again, if_pos (List.contains_iff_mem.mpr again)]
    rfl
  · rw [if_neg again, if_neg (mt List.contains_iff_mem.mp again)]
    change (content >>= fun text => do modify List.tail; return text) (container :: path) = _
    rw [run_bind written]
    rfl

/-- Parts that leave the stack as they found it do so one after the other. -/
theorem run_mapM {α : Type} {write : α → Writer} {text : α → String}
    (written : ∀ part, write part path = (text part, path)) (parts : List α) :
    parts.mapM write path = (parts.map text, path) := by
  induction parts with
  | nil => rfl
  | cons part rest ih =>
      rw [List.mapM_cons, run_bind (written part), run_bind ih]
      rfl

/-- Arrays and maps are written alike but for what stands around and between their parts. -/
theorem renderWithin_container (depth : Nat) (held : value.container? = some container)
    (restores : ∀ part, heap.renderWithin depth part (container :: path) =
      (heap.textWithin depth (container :: path) part, container :: path)) :
    heap.renderWithin (depth + 1) value path =
      (if container ∈ path then "[Circular]"
        else container.enclose
          ((heap.parts container).map (heap.textWithin depth (container :: path))), path) := by
  cases value with
  | array ref =>
      cases held
      apply Writer.inside_eq
      rw [run_bind (run_mapM restores _)]
      rfl
  | map ref =>
      cases held
      have entry (entry : Value × Value) :
          (do let keyText ← heap.renderWithin depth entry.1
              let valueText ← heap.renderWithin depth entry.2
              return keyText ++ " => " ++ valueText : Writer) (.map ref :: path) =
            (heap.textWithin depth (.map ref :: path) entry.1 ++ " => " ++
              heap.textWithin depth (.map ref :: path) entry.2, .map ref :: path) := by
        rw [run_bind (restores _), run_bind (restores _)]
        rfl
      apply Writer.inside_eq
      rw [run_bind (run_mapM entry _), Container.enclose, parts, Container.pairs_flatMap]
      rfl
  | _ => cases held

/-- The stack is the same after a value has been written. -/
theorem renderWithin_restores (heap : Heap) (depth : Nat) (path : List Container) (value : Value) :
    heap.renderWithin depth value path = (heap.textWithin depth path value, path) := by
  induction depth generalizing path value with
  | zero =>
      cases held : value.container? with
      | none =>
          obtain ⟨text, _, written⟩ := heap.renderWithin_single 0 path held
          rw [textWithin, written]
      | some container => rw [textWithin, renderWithin_zero held]
  | succ depth ih =>
      cases held : value.container? with
      | none =>
          obtain ⟨text, _, written⟩ := heap.renderWithin_single (depth + 1) path held
          rw [textWithin, written]
      | some container => rw [textWithin, renderWithin_container depth held (ih _)]

/-- The containers of a heap. -/
def all (heap : Heap) : List Container :=
  (List.range heap.arrays.size).map (fun index => .array ⟨index⟩) ++
    (List.range heap.maps.size).map fun index => .map ⟨index⟩

/-- A container in the heap is among all of them. -/
theorem Has.mem_all (known : heap.Has container) : container ∈ heap.all := by
  cases container with
  | array ref =>
      exact List.mem_append_left _ (List.mem_map.mpr ⟨ref.index, List.mem_range.mpr known, rfl⟩)
  | map ref =>
      exact List.mem_append_right _ (List.mem_map.mpr ⟨ref.index, List.mem_range.mpr known, rfl⟩)

/-- A container that holds something is in the heap. -/
theorem has_of_mem_parts (member : value ∈ heap.parts container) : heap.Has container := by
  by_contra beyond
  cases container with
  | array ref =>
      have empty : heap.array ref = #[] := by
        rw [array, Array.getD_eq_getD_getElem?, Array.getElem?_eq_none (Nat.le_of_not_lt beyond)]
        rfl
      simp [parts, empty] at member
  | map ref =>
      have empty : heap.map ref = .empty := by
        rw [map, Array.getD_eq_getD_getElem?, Array.getElem?_eq_none (Nat.le_of_not_lt beyond)]
        rfl
      simp [parts, empty, OrderedMap.empty] at member

instance (heap : Heap) : DecidablePred heap.Has
  | .array ref => inferInstanceAs (Decidable (ref.index < heap.arrays.size))
  | .map ref => inferInstanceAs (Decidable (ref.index < heap.maps.size))

instance (heap : Heap) (value : Value) : Decidable (heap.Knows value) :=
  Option.decidableForallMem value.container?

/-- Only the containers of a heap hold anything. -/
instance (heap : Heap) : Decidable heap.IsClosed :=
  decidable_of_iff (∀ container ∈ heap.all, ∀ value ∈ heap.parts container, heap.Knows value)
    ⟨fun closed container value member => closed container (has_of_mem_parts member).mem_all value member,
      fun closed container _ => closed container⟩

/-- Containers inside one another that do not repeat are no more than the heap has. -/
theorem length_le_containers (distinct : path.Nodup) (known : ∀ outer ∈ path, heap.Has outer) :
    path.length ≤ heap.containers := by
  have fewer : path.Subperm heap.all :=
    List.subperm_of_subset distinct fun outer member => (known outer member).mem_all
  simpa [all, containers] using fewer.length_le

end Heap

namespace Unfolding

variable {heap : Heap} {path : List Container}

/-- Branches show values one by one. -/
theorem showsAll_iff {values : List Value} {branches : List Unfolding} :
    ShowsAll heap path values branches ↔
      List.Forall₂ (fun value branch => branch.Shows heap path value) values branches := by
  induction values generalizing branches with
  | nil => cases branches <;> simp [ShowsAll]
  | cons value rest ih => cases branches <;> simp [ShowsAll, ih]

/-- Branches are whole if each of them is. -/
theorem areWhole_iff {branches : List Unfolding} :
    AreWhole branches ↔ ∀ branch ∈ branches, branch.IsWhole := by
  induction branches with
  | nil => simp [AreWhole]
  | cons branch rest ih => simp [AreWhole, ih]

mutual

/-- What holds of a tree if it holds of its branches holds of all trees. -/
@[elab_as_elim]
theorem induction_branches {motive : Unfolding → Prop} (word : ∀ text, motive (.word text))
    (cut : motive .cut)
    (node : ∀ container branches, (∀ branch ∈ branches, motive branch) →
      motive (.node container branches)) : ∀ unfolding, motive unfolding
  | .word text => word text
  | .cut => cut
  | .node container branches => node container branches (induction_all word cut node branches)

/-- What holds of a tree if it holds of its branches holds of all branches. -/
theorem induction_all {motive : Unfolding → Prop} (word : ∀ text, motive (.word text))
    (cut : motive .cut)
    (node : ∀ container branches, (∀ branch ∈ branches, motive branch) →
      motive (.node container branches)) :
    ∀ branches : List Unfolding, ∀ branch ∈ branches, motive branch
  | [] => fun _ member => absurd member List.not_mem_nil
  | branch :: rest => List.forall_mem_cons.mpr
      ⟨induction_branches word cut node branch, induction_all word cut node rest⟩

end

/-- Branches for the same values are the same if each of them is determined. -/
theorem eq_of_showsAll {values : List Value} {left right : List Unfolding}
    (same : ∀ branch ∈ left, ∀ {path : List Container} {value : Value} {other : Unfolding},
      branch.Shows heap path value → other.Shows heap path value → branch = other)
    (first : ShowsAll heap path values left) (second : ShowsAll heap path values right) :
    left = right := by
  rw [showsAll_iff] at first second
  induction first generalizing right with
  | nil =>
      cases second
      rfl
  | cons here _ ih =>
      obtain ⟨head, rest⟩ := List.forall_mem_cons.mp same
      cases second with
      | cons otherHere otherRest => rw [head here otherHere, ih rest otherRest]

/-- A value has at most one tree below a path. -/
theorem eq_of_shows {value : Value} {left right : Unfolding} (first : left.Shows heap path value)
    (second : right.Shows heap path value) : left = right := by
  induction left using induction_branches generalizing path value right with
  | word text =>
      rw [Shows] at first
      cases right with
      | word other => rw [Option.some.inj (first.symm.trans second)]
      | cut =>
          obtain ⟨_, _, held⟩ := second
          cases first.symm.trans (Heap.word?_eq_none held)
      | node container branches => cases first.symm.trans (Heap.word?_eq_none second.1)
  | cut =>
      obtain ⟨container, inside, held⟩ := first
      cases right with
      | word other =>
          rw [Shows] at second
          cases second.symm.trans (Heap.word?_eq_none held)
      | cut => rfl
      | node other branches =>
          cases held.symm.trans second.1
          exact absurd inside second.2.1
  | node container branches ih =>
      obtain ⟨held, fresh, shown⟩ := first
      cases right with
      | word other =>
          rw [Shows] at second
          cases second.symm.trans (Heap.word?_eq_none held)
      | cut =>
          obtain ⟨other, inside, otherHeld⟩ := second
          cases held.symm.trans otherHeld
          exact absurd inside fresh
      | node other others =>
          obtain ⟨otherHeld, _, otherShown⟩ := second
          cases held.symm.trans otherHeld
          rw [eq_of_showsAll ih shown otherShown]

/-- Trees for the parts of a container are branches for the container. -/
theorem exists_showsAll {values : List Value} {write : Value → String}
    (shown : ∀ value ∈ values, ∃ branch : Unfolding, branch.Shows heap path value ∧
      write value = branch.text) :
    ∃ branches, ShowsAll heap path values branches ∧ values.map write = texts branches := by
  induction values with
  | nil => exact ⟨[], trivial, rfl⟩
  | cons value rest ih =>
      obtain ⟨⟨branch, here, written⟩, others⟩ := List.forall_mem_cons.mp shown
      obtain ⟨branches, further, rewritten⟩ := ih others
      exact ⟨branch :: branches, ⟨here, further⟩, by rw [List.map_cons, written, rewritten, texts]⟩

end Unfolding

namespace Heap

variable {heap : Heap}

/-- With a depth for each container that is not yet on the path, rendering writes a tree that shows the
value. -/
theorem renderWithin_shows (closed : heap.IsClosed) {depth : Nat} {path : List Container} {value : Value}
    (distinct : path.Nodup) (known : ∀ outer ∈ path, heap.Has outer)
    (deep : heap.containers ≤ depth + path.length) (inside : heap.Knows value) :
    ∃ unfolding : Unfolding, unfolding.Shows heap path value ∧
      heap.textWithin depth path value = unfolding.text := by
  induction depth generalizing path value with
  | zero =>
      cases held : value.container? with
      | none =>
          obtain ⟨text, single, written⟩ := renderWithin_single 0 path held
          exact ⟨.word text, single, congrArg Prod.fst written⟩
      | some container =>
          have again : container ∈ path := by
            by_contra fresh
            have longer := length_le_containers (List.nodup_cons.mpr ⟨fresh, distinct⟩)
              (List.forall_mem_cons.mpr ⟨inside container held, known⟩)
            rw [List.length_cons] at longer
            omega
          exact ⟨.cut, ⟨container, again, held⟩, congrArg Prod.fst (renderWithin_zero held)⟩
  | succ depth ih =>
      cases held : value.container? with
      | none =>
          obtain ⟨text, single, written⟩ := renderWithin_single (depth + 1) path held
          exact ⟨.word text, single, congrArg Prod.fst written⟩
      | some container =>
          rw [textWithin, renderWithin_container depth held (heap.renderWithin_restores depth _)]
          by_cases again : container ∈ path
          · rw [if_pos again]
            exact ⟨.cut, ⟨container, again, held⟩, rfl⟩
          · have deeper : heap.containers ≤ depth + (container :: path).length := by
              rw [List.length_cons]
              omega
            obtain ⟨branches, shown, written⟩ := Unfolding.exists_showsAll fun part member =>
              ih (List.nodup_cons.mpr ⟨again, distinct⟩)
                (List.forall_mem_cons.mpr ⟨inside container held, known⟩) deeper
                (closed container part member)
            rw [if_neg again, written]
            exact ⟨.node container branches, ⟨held, again, shown⟩, rfl⟩

end Heap

namespace Unfolding

variable {heap : Heap} {path : List Container} {value : Value}

/-- Each value is shown by one of the branches. -/
theorem exists_branch {values : List Value} {branches : List Unfolding}
    (shown : ShowsAll heap path values branches) (member : value ∈ values) :
    ∃ branch ∈ branches, branch.Shows heap path value := by
  rw [showsAll_iff] at shown
  obtain ⟨index, inside, rfl⟩ := List.getElem_of_mem member
  exact ⟨_, List.getElem_mem _, shown.get inside (shown.length_eq ▸ inside)⟩

/-- Each branch shows one of the values. -/
theorem exists_part {values : List Value} {branches : List Unfolding} {branch : Unfolding}
    (shown : ShowsAll heap path values branches) (member : branch ∈ branches) :
    ∃ value ∈ values, branch.Shows heap path value := by
  rw [showsAll_iff] at shown
  obtain ⟨index, inside, rfl⟩ := List.getElem_of_mem member
  exact ⟨_, List.getElem_mem _, shown.get (shown.length_eq ▸ inside) inside⟩

/-- Below a value whose tree is whole, going further inside comes to an end. -/
theorem IsWhole.acc {unfolding : Unfolding} (whole : unfolding.IsWhole)
    (shown : unfolding.Shows heap path value) {container : Container}
    (held : value.container? = some container) :
    Acc (fun inner outer => heap.Holds outer inner) container := by
  induction unfolding using induction_branches generalizing path value container with
  | word text => cases shown.symm.trans (Heap.word?_eq_none held)
  | cut => exact whole.elim
  | node other branches ih =>
      obtain ⟨otherHeld, _, below⟩ := shown
      cases held.symm.trans otherHeld
      refine Acc.intro _ fun inner holds => ?_
      obtain ⟨part, member, partHeld⟩ := holds
      obtain ⟨branch, inside, here⟩ := exists_branch below member
      exact ih branch inside (areWhole_iff.mp whole branch inside) here partHeld

/-- If no container below a value leads back to itself, nothing is cut. The containers on the path are
those that lead to the value. -/
theorem isWhole_of_acyclic {unfolding : Unfolding} (shown : unfolding.Shows heap path value)
    (around : ∀ outer ∈ path, ∀ container, value.container? = some container →
      Relation.TransGen heap.Holds outer container)
    (acyclic : ∀ container, heap.Leads value container →
      ¬Relation.TransGen heap.Holds container container) : unfolding.IsWhole := by
  induction unfolding using induction_branches generalizing path value with
  | word text => trivial
  | cut =>
      obtain ⟨container, again, held⟩ := shown
      exact acyclic container ⟨container, held, .refl⟩ (around container again container held)
  | node container branches ih =>
      obtain ⟨held, _, below⟩ := shown
      refine areWhole_iff.mpr fun branch inside => ?_
      obtain ⟨part, member, here⟩ := exists_part below inside
      refine ih branch inside here ?_ ?_
      · refine List.forall_mem_cons.mpr ⟨fun inner partHeld => .single ⟨part, member, partHeld⟩, ?_⟩
        intro outer above inner partHeld
        exact (around outer above container held).tail ⟨part, member, partHeld⟩
      · rintro last ⟨first, partHeld, steps⟩
        exact acyclic last ⟨container, held, steps.head ⟨part, member, partHeld⟩⟩

end Unfolding

namespace Heap

variable {heap : Heap}

/-- A container below which there is an end does not lead back to itself. -/
theorem not_transGen_self {container : Container}
    (ends : Acc (fun inner outer => heap.Holds outer inner) container) :
    ¬Relation.TransGen heap.Holds container container := by
  induction ends with
  | intro container _ ih =>
      intro cycle
      obtain ⟨inner, holds, steps⟩ := Relation.TransGen.head'_iff.mp cycle
      exact ih inner holds (Relation.TransGen.tail' steps holds)

/-- Nothing is cut in the tree of a value exactly if no container leads back to itself. -/
theorem isWhole_iff {unfolding : Unfolding} {value : Value} (shown : unfolding.Shows heap [] value) :
    unfolding.IsWhole ↔ ∀ container, heap.Leads value container →
      ¬Relation.TransGen heap.Holds container container := by
  refine ⟨fun whole last leads => ?_, Unfolding.isWhole_of_acyclic shown (by simp)⟩
  obtain ⟨first, held, steps⟩ := leads
  have ends := whole.acc shown held
  refine not_transGen_self ?_
  induction steps with
  | refl => exact ends
  | tail _ holds ih => exact ih.inv holds

/-- A text has quotes inside of containers and in messages, but not where it is printed. -/
theorem display_eq_render_iff (value : Value) :
    heap.display value = heap.render value ↔ ∀ text, value ≠ .text text := by
  cases value with
  | text text =>
      have quoted : heap.render (.text text) = "'" ++ text ++ "'" := by
        rw [render]
        cases heap.containers <;> rfl
      refine ⟨fun same => ?_, fun other => absurd rfl (other text)⟩
      have lengths := congrArg String.length same
      rw [quoted, display] at lengths
      simp only [String.length_append] at lengths
      have quote : "'".length = 1 := rfl
      omega
  | _ => exact ⟨fun _ _ => Value.noConfusion, fun _ => rfl⟩

/-- Each value of a heap has one tree in which a container is cut exactly where it occurs on the path
from the root for the second time. Rendering writes this tree, and a limit on its depth that is higher
than the number of containers changes nothing. The stack of containers is back after every part. The tree is whole exactly if no container below the value
leads back to itself, however much is shared. What is printed differs only for a text on its own. -/
theorem render_unfolds (heap : Heap) (value : Value) (closed : heap.IsClosed)
    (inside : heap.Knows value) :
    ∃ unfolding : Unfolding,
      (∀ other : Unfolding, other.Shows heap [] value ↔ other = unfolding) ∧
      heap.render value = unfolding.text ∧
      (∀ depth, heap.containers ≤ depth →
        heap.renderWithin depth value [] = (unfolding.text, [])) ∧
      (∀ depth part path, (heap.renderWithin depth part path).2 = path) ∧
      (unfolding.IsWhole ↔ ∀ container, heap.Leads value container →
        ¬Relation.TransGen heap.Holds container container) ∧
      (heap.display value = heap.render value ↔ ∀ text, value ≠ .text text) := by
  have shows (depth : Nat) (deep : heap.containers ≤ depth) :=
    renderWithin_shows closed List.nodup_nil (by simp) (Nat.le_add_right_of_le deep) inside
  obtain ⟨unfolding, shown, rendered⟩ := shows heap.containers (Nat.le_refl _)
  refine ⟨unfolding, fun other => ⟨fun also => Unfolding.eq_of_shows also shown, ?_⟩, rendered, ?_,
    fun depth part path => congrArg Prod.snd (heap.renderWithin_restores depth path part),
    isWhole_iff shown, display_eq_render_iff value⟩
  · rintro rfl
    exact shown
  · intro depth deep
    obtain ⟨other, also, written⟩ := shows depth deep
    rw [heap.renderWithin_restores depth, written, Unfolding.eq_of_shows also shown]

/-- An array that holds a word, an empty array twice, and a map with the array as a key and itself as the
value of this key. -/
theorem render_unfolds_cyclic :
    let heap : Heap :=
      { Heap.empty with
        arrays := #[#[.text "a", .array ⟨1⟩, .array ⟨1⟩, .map ⟨0⟩], #[]]
        maps := #[⟨#[(.array ⟨0⟩, .map ⟨0⟩)], ∅⟩] }
    let value : Value := .array ⟨0⟩
    heap.IsClosed ∧ heap.Knows value ∧
      heap.render value = "['a', [], [], \x7b[Circular] => [Circular]\x7d]" ∧
      ∃ unfolding : Unfolding,
        (∀ other : Unfolding, other.Shows heap [] value ↔ other = unfolding) ∧
        heap.render value = unfolding.text ∧ ¬unfolding.IsWhole := by
  intro heap value
  have closed : heap.IsClosed := by decide +kernel
  have inside : heap.Knows value := by decide +kernel
  obtain ⟨unfolding, only, rendered, _, _, whole, _⟩ := render_unfolds heap value closed inside
  refine ⟨closed, inside, by decide +kernel, unfolding, only, rendered, ?_⟩
  rw [whole]
  intro acyclic
  have inner : heap.Holds (.map ⟨0⟩) (.map ⟨0⟩) := ⟨.map ⟨0⟩, List.mem_cons_of_mem _ List.mem_cons_self, rfl⟩
  have outer : heap.Holds (.array ⟨0⟩) (.map ⟨0⟩) := ⟨.map ⟨0⟩, by simp [heap, parts, array], rfl⟩
  exact acyclic (.map ⟨0⟩) ⟨.array ⟨0⟩, rfl, .single outer⟩ (.single inner)

end Heap

end OffsideScript
