/-!
# Queues

First in, first out.  A queue is seen through `toList`, which lists it from the
element that leaves next.
-/

namespace Phraseology

/-- A queue whose front part is kept in order and whose back part in reverse. -/
structure Queue (α : Type) where
  front : List α
  back : List α

namespace Queue

variable {α : Type}

/-- The queue without elements. -/
def empty : Queue α where
  front := []
  back := []

/-- The elements, from the one that leaves next. -/
def toList (queue : Queue α) : List α :=
  queue.front ++ queue.back.reverse

/-- The number of elements. -/
def length (queue : Queue α) : Nat :=
  queue.front.length + queue.back.length

/-- Adds elements one after the other. -/
def pushAll (queue : Queue α) (xs : List α) : Queue α :=
  { queue with back := xs.reverse ++ queue.back }

/-- Takes the element that leaves next. -/
def pop? (queue : Queue α) : Option (α × Queue α) :=
  match queue.front with
  | x :: front => some (x, { queue with front })
  | [] =>
    match queue.back.reverse with
    | [] => none
    | x :: front => some (x, { front, back := [] })

@[simp] theorem toList_empty : (empty : Queue α).toList = [] := rfl

@[simp] theorem length_toList (queue : Queue α) : queue.toList.length = queue.length := by
  simp [toList, length]

@[simp] theorem toList_pushAll (queue : Queue α) (xs : List α) :
    (queue.pushAll xs).toList = queue.toList ++ xs := by
  simp [toList, pushAll]

theorem pop?_eq_none_iff {queue : Queue α} : queue.pop? = none ↔ queue.toList = [] := by
  obtain ⟨front, back⟩ := queue
  cases front with
  | cons x front => simp [pop?, toList]
  | nil => cases h : back.reverse <;> simp [pop?, toList, h]

theorem toList_of_pop? {queue rest : Queue α} {x : α} (h : queue.pop? = some (x, rest)) :
    queue.toList = x :: rest.toList := by
  obtain ⟨front, back⟩ := queue
  cases front with
  | cons y front =>
    simp only [pop?, Option.some.injEq, Prod.mk.injEq] at h
    obtain ⟨rfl, rfl⟩ := h
    simp [toList]
  | nil =>
    cases hb : back.reverse with
    | nil => simp [pop?, hb] at h
    | cons y front =>
      simp only [pop?, hb, Option.some.injEq, Prod.mk.injEq] at h
      obtain ⟨rfl, rfl⟩ := h
      simp [toList, hb]

theorem length_of_pop? {queue rest : Queue α} {x : α} (h : queue.pop? = some (x, rest)) :
    queue.length = rest.length + 1 := by
  rw [← length_toList, toList_of_pop? h, List.length_cons, length_toList]

end Queue

end Phraseology
