import OffsideScript.Heap.Basic
import Mathlib.Data.List.Basic

namespace OffsideScript

/-- A definition changes the value of one name. -/
theorem Bindings.get?_define (bindings : Bindings) (name other : String) (value : Value) :
    (bindings.define name value).get? other =
      if other = name then some value else bindings.get? other := by
  induction bindings with
  | nil =>
      rw [define, get?, List.lookup_cons]
      by_cases same : other = name
      · rw [if_pos same, same, beq_self_eq_true]
      · rw [if_neg same, beq_eq_false_iff_ne.mpr same]
        rfl
  | cons binding rest ih =>
      rcases binding with ⟨bound, current⟩
      unfold define
      by_cases found : bound = name
      · subst bound
        by_cases same : other = name
        · simp [get?, same]
        · have different : (other == name) = false := beq_eq_false_iff_ne.mpr same
          simp [get?, List.lookup_cons, different, same]
      · rw [if_neg (by simpa using found)]
        unfold get? at ih ⊢
        rw [List.lookup_cons, List.lookup_cons, ih]
        by_cases same : other = bound
        · subst bound
          simp [found]
        · have different : (other == bound) = false := beq_eq_false_iff_ne.mpr same
          simp [different]

/-- A definition adds one binding. -/
theorem Bindings.mem_define {bindings : Bindings} {name : String} {value : Value}
    {binding : String × Value} (member : binding ∈ bindings.define name value) :
    binding ∈ bindings ∨ binding = (name, value) := by
  induction bindings with
  | nil => exact .inr (List.mem_singleton.mp member)
  | cons first rest ih =>
      unfold define at member
      split at member
      · rcases List.mem_cons.mp member with new | old
        · exact .inr new
        · exact .inl (List.mem_cons_of_mem first old)
      · rcases List.mem_cons.mp member with same | inRest
        · exact .inl (same ▸ List.mem_cons_self)
        · exact (ih inRest).imp_left (List.mem_cons_of_mem first)

/-- A call binds parameters to its arguments. -/
theorem Closure.mem_bindings {closure : Closure} {arguments : List Value}
    {binding : String × Value} (member : binding ∈ closure.bindings arguments) :
    binding.2 ∈ arguments := by
  have general : ∀ (pairs : List (Token × Value)) (bindings : Bindings),
      binding ∈ pairs.foldl (fun bindings pair =>
        Bindings.define pair.1.lexeme pair.2 bindings) bindings →
      binding ∈ bindings ∨ ∃ pair ∈ pairs, pair.2 = binding.2 := by
    intro pairs
    induction pairs with
    | nil => exact fun _ inside => .inl inside
    | cons pair rest ih =>
        intro bindings inside
        rw [List.exists_mem_cons_iff]
        rcases ih _ inside with defined | later
        · exact (Bindings.mem_define defined).imp_right fun new => .inl (congrArg Prod.snd new).symm
        · exact .inr (.inr later)
  rcases general _ _ member with none | ⟨pair, inside, same⟩
  · cases none
  · exact same ▸ (List.of_mem_zip inside).2

/-- A call binds the parameters of the function and nothing else. -/
theorem Closure.get?_bindings (closure : Closure) (arguments : List Value)
    (arity : closure.parameters.length = arguments.length) (name : String) :
    ((closure.bindings arguments).get? name).isSome = true ↔
      ∃ parameter ∈ closure.parameters, parameter.lexeme = name := by
  have general : ∀ (pairs : List (Token × Value)) (bindings : Bindings),
      ((pairs.foldl (fun bindings pair =>
          Bindings.define pair.1.lexeme pair.2 bindings) bindings).get? name).isSome = true ↔
        (bindings.get? name).isSome = true ∨ ∃ pair ∈ pairs, pair.1.lexeme = name := by
    intro pairs
    induction pairs with
    | nil => simp
    | cons pair rest ih =>
        intro bindings
        rw [List.foldl_cons, ih, Bindings.get?_define, List.exists_mem_cons_iff]
        by_cases same : name = pair.1.lexeme
        · simp [same]
        · rw [if_neg same]
          have apart : ¬pair.1.lexeme = name := fun equal => same equal.symm
          tauto
  rw [Closure.bindings, general]
  have parameters : (closure.parameters.zip arguments).map Prod.fst = closure.parameters :=
    List.map_fst_zip (Nat.le_of_eq arity)
  constructor
  · rintro (bound | ⟨pair, member, named⟩)
    · cases bound
    · exact ⟨pair.1, parameters ▸ List.mem_map_of_mem member, named⟩
  · rintro ⟨parameter, member, named⟩
    rw [← parameters] at member
    obtain ⟨pair, inside, rfl⟩ := List.mem_map.mp member
    exact .inr ⟨pair, inside, named⟩

namespace Heap

variable (heap : Heap)

/-- A definition makes no environment. -/
theorem define_size (ref : EnvironmentRef) (name : String) (value : Value) :
    (heap.define ref name value).environments.size = heap.environments.size := by
  simp [define]

/-- Defining a variable changes one name in one environment. -/
theorem get?_define (ref other : EnvironmentRef) (name sought : String) (value : Value) :
    (heap.define ref name value).get? other sought =
      if other = ref ∧ sought = name ∧ ref.index < heap.environments.size then some value
      else heap.get? other sought := by
  unfold get? define
  dsimp only
  rw [Array.getElem?_modify]
  by_cases same : other = ref
  · subst other
    rw [if_pos rfl]
    by_cases inside : ref.index < heap.environments.size
    · rw [Array.getElem?_eq_getElem inside]
      simp only [Option.map_some, Option.bind_some, Bindings.get?_define, true_and, inside,
        and_true]
    · rw [Array.getElem?_eq_none (Nat.le_of_not_lt inside)]
      simp [inside]
  · have apart : ref.index ≠ other.index := fun equal => same (by cases ref; cases other; simp_all)
    rw [if_neg apart, if_neg (fun both => same both.1)]

/-- A definition changes no parent. -/
theorem parent?_define (ref other : EnvironmentRef) (name : String) (value : Value) :
    (heap.define ref name value).parent? other = heap.parent? other := by
  unfold parent? define
  dsimp only
  rw [Array.getElem?_modify]
  split
  · cases heap.environments[other.index]? <;> rfl
  · rfl

/-- Defining a variable binds its name and no other. -/
theorem binds_define (ref other : EnvironmentRef) (name sought : String) (value : Value) :
    (heap.define ref name value).binds other sought = true ↔
      (other = ref ∧ sought = name ∧ ref.index < heap.environments.size) ∨
        heap.binds other sought = true := by
  unfold binds
  rw [get?_define]
  by_cases here : other = ref ∧ sought = name ∧ ref.index < heap.environments.size
  · rw [if_pos here]
    exact ⟨fun _ => .inl here, fun _ => rfl⟩
  · rw [if_neg here]
    exact ⟨.inr, fun bound => bound.resolve_left here⟩

/-- A new environment is one more. -/
theorem newEnvironment_size (environment : Environment) :
    (heap.newEnvironment environment).2.environments.size = heap.environments.size + 1 := by
  simp [newEnvironment]

/-- A new environment comes after all others. -/
theorem get?_newEnvironment (environment : Environment) (ref : EnvironmentRef) (name : String) :
    (heap.newEnvironment environment).2.get? ref name =
      if ref = (heap.newEnvironment environment).1 then environment.bindings.get? name
      else heap.get? ref name := by
  unfold get? newEnvironment
  dsimp only
  rw [Array.getElem?_push]
  by_cases fresh : ref.index = heap.environments.size
  · have same : ref = ⟨heap.environments.size⟩ := by cases ref; simp_all
    rw [if_pos fresh, if_pos same]
    rfl
  · have apart : ref ≠ ⟨heap.environments.size⟩ := fun equal => fresh (by rw [equal])
    rw [if_neg fresh, if_neg apart]

/-- A new environment has its own parent, and the others keep theirs. -/
theorem parent?_newEnvironment (environment : Environment) (ref : EnvironmentRef) :
    (heap.newEnvironment environment).2.parent? ref =
      if ref = (heap.newEnvironment environment).1 then environment.parent
      else heap.parent? ref := by
  unfold parent? newEnvironment
  dsimp only
  rw [Array.getElem?_push]
  by_cases fresh : ref.index = heap.environments.size
  · have same : ref = ⟨heap.environments.size⟩ := by cases ref; simp_all
    rw [if_pos fresh, if_pos same]
    rfl
  · have apart : ref ≠ ⟨heap.environments.size⟩ := fun equal => fresh (by rw [equal])
    rw [if_neg fresh, if_neg apart]

/-- An environment with a parent is in the heap. -/
theorem inside_of_parent? {heap : Heap} {ref parent : EnvironmentRef}
    (enclosed : heap.parent? ref = some parent) : ref.index < heap.environments.size := by
  by_contra outside
  rw [parent?, Array.getElem?_eq_none (Nat.le_of_not_lt outside)] at enclosed
  cases enclosed

/-- An environment that binds a name is in the heap. -/
theorem inside_of_binds {heap : Heap} {ref : EnvironmentRef} {name : String}
    (bound : heap.binds ref name = true) : ref.index < heap.environments.size := by
  by_contra outside
  rw [binds, get?, Array.getElem?_eq_none (Nat.le_of_not_lt outside)] at bound
  cases bound

end Heap

/-- One heap has all environments of another, with the same environments around them and at least the
same names. -/
structure Heap.Grows (before after : Heap) : Prop where
  size : before.environments.size ≤ after.environments.size
  parents : ∀ ref, ref.index < before.environments.size → after.parent? ref = before.parent? ref
  names : ∀ ref name, before.binds ref name = true → after.binds ref name = true

namespace Heap.Grows

theorem refl (heap : Heap) : heap.Grows heap :=
  ⟨Nat.le_refl _, fun _ _ => rfl, fun _ _ bound => bound⟩

theorem trans {first second third : Heap} (left : first.Grows second)
    (right : second.Grows third) : first.Grows third :=
  ⟨Nat.le_trans left.size right.size,
    fun ref inside => (right.parents ref (Nat.lt_of_lt_of_le inside left.size)).trans
      (left.parents ref inside),
    fun ref name bound => right.names ref name (left.names ref name bound)⟩

/-- A heap with the same environments has grown. -/
theorem of_environments_eq {before after : Heap}
    (same : after.environments = before.environments) : before.Grows after := by
  constructor
  · exact Nat.le_of_eq (congrArg Array.size same.symm)
  · intro ref _
    rw [parent?, parent?, same]
  · intro ref name bound
    rw [binds, get?, same]
    exact bound

/-- A heap grows by a definition. -/
theorem define (heap : Heap) (ref : EnvironmentRef) (name : String) (value : Value) :
    heap.Grows (heap.define ref name value) :=
  ⟨Nat.le_of_eq (heap.define_size ref name value).symm,
    fun other _ => heap.parent?_define ref other name value,
    fun other sought bound => (heap.binds_define ref other name sought value).mpr (.inr bound)⟩

/-- A heap grows by a new environment. -/
theorem newEnvironment (heap : Heap) (environment : Environment) :
    heap.Grows (heap.newEnvironment environment).2 := by
  have old (ref : EnvironmentRef) (inside : ref.index < heap.environments.size) :
      ref ≠ (heap.newEnvironment environment).1 := by
    intro same
    rw [same] at inside
    exact Nat.lt_irrefl _ inside
  constructor
  · rw [heap.newEnvironment_size]
    exact Nat.le_succ _
  · intro ref inside
    rw [heap.parent?_newEnvironment, if_neg (old ref inside)]
  · intro ref name bound
    rw [binds, heap.get?_newEnvironment, if_neg (old ref (inside_of_binds bound))]
    exact bound

end Heap.Grows

end OffsideScript
