import Mathlib.Data.List.Basic

/-!
# Lists of tasks

The tasks of a program stand in one list: a new task is appended, and a task
moves by replacing its entry.  The number of tasks with a property, a
`List.countP`, then changes by what the one task gains or loses.  Where at most
one task has the property, it alone decides what all of them contribute.
-/

namespace Basis.Tasks

variable {τ β : Type} {tasks : List τ} {index : Nat} {task : τ}
  {holds : τ → Bool}

theorem found_append (found : tasks[index]? = some task) (other : τ) :
    (tasks ++ [other])[index]? = some task := by
  obtain ⟨inside, rfl⟩ := List.getElem?_eq_some_iff.mp found
  rw [List.getElem?_append_left inside, List.getElem?_eq_getElem inside]

theorem found_append_cases {other : τ}
    (found : (tasks ++ [other])[index]? = some task) :
    tasks[index]? = some task ∨ (tasks[index]? = none ∧ task = other) := by
  rw [List.getElem?_append] at found
  split at found <;> rename_i inside
  · exact Or.inl found
  · have member := List.mem_of_getElem? found
    exact Or.inr ⟨List.getElem?_eq_none_iff.mpr (Nat.le_of_not_lt inside),
      List.mem_singleton.mp member⟩

theorem found_set_self (found : tasks[index]? = some task) (next : τ) :
    (tasks.set index next)[index]? = some next := by
  obtain ⟨inside, rfl⟩ := List.getElem?_eq_some_iff.mp found
  exact List.getElem?_set_self inside

theorem set_ne_nil (found : tasks[index]? = some task) (next : τ) :
    tasks.set index next ≠ [] := by
  rw [Ne, List.set_eq_nil_iff]
  rintro rfl
  cases found

theorem mem_set_of_ne {other : τ} (member : other ∈ tasks)
    (found : tasks[index]? = some task) (different : other ≠ task)
    (next : τ) : other ∈ tasks.set index next := by
  obtain ⟨place, placed⟩ := List.mem_iff_getElem?.mp member
  have apart : index ≠ place := by
    rintro rfl
    exact different (Option.some.inj (placed.symm.trans found))
  exact List.mem_iff_getElem?.mpr
    ⟨place, (List.getElem?_set_ne apart).trans placed⟩

theorem countP_append_singleton (holds : τ → Bool) (tasks : List τ)
    (task : τ) :
    (tasks ++ [task]).countP holds =
      tasks.countP holds + (holds task).toNat := by
  rw [List.countP_append, List.countP_singleton]
  cases holds task <;> rfl

/-- The task that moves is counted before and after. -/
theorem countP_set_add (holds : τ → Bool)
    (found : tasks[index]? = some task) (next : τ) :
    (tasks.set index next).countP holds + (holds task).toNat =
      tasks.countP holds + (holds next).toNat := by
  induction tasks generalizing index with
  | nil => simp at found
  | cons head tasks induction =>
      cases index with
      | zero =>
          obtain rfl : head = task := by simpa using found
          simp only [List.set_cons_zero, List.countP_cons]
          cases holds head <;> cases holds next <;> simp +arith
      | succ index =>
          have tailFound : tasks[index]? = some task := by simpa using found
          have tailCount := induction tailFound
          simp only [List.set_cons_succ, List.countP_cons]
          omega

theorem countP_set_of_eq (found : tasks[index]? = some task) {next : τ}
    (same : holds next = holds task) :
    (tasks.set index next).countP holds = tasks.countP holds := by
  have moved := countP_set_add holds found next
  rw [same] at moved
  omega

theorem countP_map_of_eq {move : τ → τ}
    (same : ∀ task, holds (move task) = holds task) (tasks : List τ) :
    (tasks.map move).countP holds = tasks.countP holds := by
  rw [List.countP_map]
  exact List.countP_congr fun task _ => by simp [same]

theorem countP_pos_of_found (found : tasks[index]? = some task)
    (held : holds task = true) : 0 < tasks.countP holds :=
  List.countP_pos_iff.mpr ⟨task, List.mem_of_getElem? found, held⟩

theorem countP_eq_zero_of_head {head : τ}
    (single : (head :: tasks).countP holds ≤ 1) (held : holds head = true) :
    tasks.countP holds = 0 := by
  rw [List.countP_cons_of_pos held] at single
  omega

/-- Two tasks with a property that at most one task has are the same task. -/
theorem index_eq_of_single {otherIndex : Nat} {other : τ}
    (single : tasks.countP holds ≤ 1) (found : tasks[index]? = some task)
    (held : holds task = true) (otherFound : tasks[otherIndex]? = some other)
    (otherHeld : holds other = true) : index = otherIndex := by
  induction tasks generalizing index otherIndex with
  | nil => simp at found
  | cons head tasks induction =>
      cases index with
      | zero =>
          obtain rfl : head = task := by simpa using found
          cases otherIndex with
          | zero => rfl
          | succ otherIndex =>
              have tailNone := countP_eq_zero_of_head single held
              have tailPos := countP_pos_of_found
                (by simpa using otherFound) otherHeld
              omega
      | succ index =>
          have tailFound : tasks[index]? = some task := by simpa using found
          have tailPos := countP_pos_of_found tailFound held
          rw [List.countP_cons] at single
          cases otherIndex with
          | zero =>
              obtain rfl : head = other := by simpa using otherFound
              rw [otherHeld, if_pos rfl] at single
              omega
          | succ otherIndex =>
              exact congrArg Nat.succ
                (induction (by omega) tailFound (by simpa using otherFound))

theorem flatMap_of_none {given : τ → List β}
    (others : ∀ task, holds task = false → given task = [])
    (none : tasks.countP holds = 0) : tasks.flatMap given = [] := by
  apply List.flatMap_eq_nil_iff.mpr
  intro task member
  have notHeld := List.countP_eq_zero.mp none task member
  exact others task (by simpa using notHeld)

/-- A single task with the property gives everything the tasks contribute, when
the others contribute nothing; and so does what it is replaced by. -/
theorem flatMap_set_of_single {given : τ → List β}
    (others : ∀ task, holds task = false → given task = [])
    (single : tasks.countP holds ≤ 1) (found : tasks[index]? = some task)
    (held : holds task = true) (next : τ) :
    (tasks.set index next).flatMap given = given next := by
  induction tasks generalizing index with
  | nil => simp at found
  | cons head tasks induction =>
      cases index with
      | zero =>
          obtain rfl : head = task := by simpa using found
          have tailNone := countP_eq_zero_of_head single held
          rw [List.set_cons_zero, List.flatMap_cons,
            flatMap_of_none others tailNone, List.append_nil]
      | succ index =>
          have tailFound : tasks[index]? = some task := by simpa using found
          have tailPos := countP_pos_of_found tailFound held
          rw [List.countP_cons] at single
          have headNot : holds head = false := by
            cases headHeld : holds head with
            | false => rfl
            | true =>
                rw [headHeld, if_pos rfl] at single
                omega
          rw [List.set_cons_succ, List.flatMap_cons, others head headNot,
            List.nil_append]
          exact induction (by omega) tailFound

theorem flatMap_of_single {given : τ → List β}
    (others : ∀ task, holds task = false → given task = [])
    (single : tasks.countP holds ≤ 1) (found : tasks[index]? = some task)
    (held : holds task = true) : tasks.flatMap given = given task := by
  have replaced := flatMap_set_of_single others single found held task
  obtain ⟨inside, rfl⟩ := List.getElem?_eq_some_iff.mp found
  rwa [List.set_getElem_self] at replaced

/-! ## Contributions -/

section Contributions

variable {given : τ → List β}

theorem index_eq_of_nodup {otherIndex : Nat} {other : τ} {item : β}
    (nodup : (tasks.flatMap given).Nodup) (found : tasks[index]? = some task)
    (gives : item ∈ given task) (otherFound : tasks[otherIndex]? = some other)
    (otherGives : item ∈ given other) : index = otherIndex := by
  induction tasks generalizing index otherIndex with
  | nil => simp at found
  | cons head tasks induction =>
      rw [List.flatMap_cons, List.nodup_append] at nodup
      obtain ⟨headNodup, tailNodup, apart⟩ := nodup
      have inTail : ∀ {place : Nat} {later : τ}, tasks[place]? = some later →
          item ∈ given later → item ∈ tasks.flatMap given :=
        fun placed laterGives => List.mem_flatMap.mpr
          ⟨_, List.mem_of_getElem? placed, laterGives⟩
      cases index with
      | zero =>
          obtain rfl : head = task := by simpa using found
          cases otherIndex with
          | zero => rfl
          | succ otherIndex =>
              have later := inTail (by simpa using otherFound) otherGives
              exact absurd rfl (apart item gives item later)
      | succ index =>
          have tailFound : tasks[index]? = some task := by simpa using found
          cases otherIndex with
          | zero =>
              obtain rfl : head = other := by simpa using otherFound
              have later := inTail tailFound gives
              exact absurd rfl (apart item otherGives item later)
          | succ otherIndex =>
              exact congrArg Nat.succ
                (induction tailNodup tailFound (by simpa using otherFound))

theorem flatMap_set_of_eq (found : tasks[index]? = some task) {next : τ}
    (same : given next = given task) :
    (tasks.set index next).flatMap given = tasks.flatMap given := by
  obtain ⟨inside, rfl⟩ := List.getElem?_eq_some_iff.mp found
  have mapped : (tasks.set index next).map given = tasks.map given := by
    rw [List.map_set, same, ← List.getElem_map given,
      List.set_getElem_self]
    simpa using inside
  rw [List.flatMap_def, List.flatMap_def, mapped]

theorem flatMap_set_perm {item : β} (found : tasks[index]? = some task)
    {next : τ} (more : given next = given task ++ [item]) :
    List.Perm ((tasks.set index next).flatMap given)
      (item :: tasks.flatMap given) := by
  induction tasks generalizing index with
  | nil => simp at found
  | cons head tasks induction =>
      cases index with
      | zero =>
          obtain rfl : head = task := by simpa using found
          rw [List.set_cons_zero, List.flatMap_cons, List.flatMap_cons, more,
            List.append_assoc]
          exact List.perm_middle
      | succ index =>
          have tail := induction (by simpa using found)
          rw [List.set_cons_succ, List.flatMap_cons, List.flatMap_cons]
          exact (tail.append_left (given head)).trans List.perm_middle

end Contributions

/-- The weights of all tasks together. -/
def total (weight : τ → Nat) : List τ → Nat
  | [] => 0
  | task :: tasks => weight task + total weight tasks

theorem total_set_add (weight : τ → Nat) (found : tasks[index]? = some task)
    (next : τ) :
    total weight (tasks.set index next) + weight task =
      total weight tasks + weight next := by
  induction tasks generalizing index with
  | nil => simp at found
  | cons head tasks induction =>
      cases index with
      | zero =>
          obtain rfl : head = task := by simpa using found
          simp only [List.set_cons_zero, total]
          omega
      | succ index =>
          have tail := induction (by simpa using found)
          simp only [List.set_cons_succ, total]
          omega

theorem total_append_singleton (weight : τ → Nat) (tasks : List τ)
    (task : τ) :
    total weight (tasks ++ [task]) = total weight tasks + weight task := by
  induction tasks with
  | nil => simp [total]
  | cons head tasks induction =>
      simp only [List.cons_append, total, induction]
      omega

theorem total_congr {weight other : τ → Nat}
    (same : ∀ task ∈ tasks, weight task = other task) :
    total weight tasks = total other tasks := by
  induction tasks with
  | nil => rfl
  | cons head tasks induction =>
      simp only [total]
      rw [same head List.mem_cons_self,
        induction fun task member => same task (List.mem_cons_of_mem _ member)]

/-- What the tasks with a property weigh more than before. -/
theorem total_le_add_countP {weight other : τ → Nat} {more : Nat}
    (heavier : ∀ task, weight task ≤ other task + more * (holds task).toNat)
    (tasks : List τ) :
    total weight tasks ≤ total other tasks + more * tasks.countP holds := by
  induction tasks with
  | nil => exact Nat.zero_le _
  | cons head tasks induction =>
      have first := heavier head
      cases held : holds head with
      | true =>
          rw [held, Bool.toNat_true] at first
          rw [List.countP_cons_of_pos held, Nat.mul_add]
          simp only [total]
          omega
      | false =>
          rw [held, Bool.toNat_false] at first
          rw [List.countP_cons_of_neg (by simp [held])]
          simp only [total]
          omega

end Basis.Tasks
