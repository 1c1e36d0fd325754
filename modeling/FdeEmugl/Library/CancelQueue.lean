import Mathlib.Data.List.Sublists

/-!
# A queue whose items may be cancelled

Items enter a queue and are taken from its front, or are run directly without entering it. All items of a key
may be cancelled, which is known to be over some time later. The rules say what a history has to meet so that
no item is run twice, the queue is taken in order, and nothing of a key is run once its cancelling is over.
-/

namespace FdeEmugl.CancelQueue

open List (append_nil mem_append mem_append_left mem_singleton nodup_append)

inductive Event (Item Key : Type*) where
  | entered (item : Item)
  | taken (item : Item)
  | direct (item : Item)
  | cancelled (key : Key)
  | over (key : Key)
deriving DecidableEq

variable {Item Key : Type*}

namespace Event

def enteredItem : Event Item Key → Option Item
  | .entered item => some item
  | _ => none

def takenItem : Event Item Key → Option Item
  | .taken item => some item
  | _ => none

def ranItem : Event Item Key → Option Item
  | .taken item => some item
  | .direct item => some item
  | _ => none

/-- The item that the event is about, if it is about one. -/
def seenItem : Event Item Key → Option Item
  | .entered item => some item
  | .taken item => some item
  | .direct item => some item
  | _ => none

end Event

variable {key : Item → Key} {events : List (Event Item Key)} {waiting : List Item} {item : Item}

def entered (events : List (Event Item Key)) : List Item := events.filterMap Event.enteredItem

def taken (events : List (Event Item Key)) : List Item := events.filterMap Event.takenItem

def ran (events : List (Event Item Key)) : List Item := events.filterMap Event.ranItem

def seen (events : List (Event Item Key)) : List Item := events.filterMap Event.seenItem

/-- Nothing of a key is run behind the end of its cancelling. -/
def Quiet (key : Item → Key) (events : List (Event Item Key)) : Prop :=
  events.Pairwise fun earlier later ↦ ∀ item, later.ranItem = some item → earlier ≠ .over (key item)

/-- What the history says of the items that are waiting. -/
structure Kept (key : Item → Key) (events : List (Event Item Key)) (waiting : List Item) : Prop where
  order : (taken events ++ waiting).Sublist (entered events)
  entered_nodup : (entered events).Nodup
  ran_nodup : (ran events).Nodup
  not_ran : ∀ item ∈ waiting, item ∉ ran events
  uncancelled : ∀ item ∈ waiting, .cancelled (key item) ∉ events
  cancelled_of_over : ∀ k, .over k ∈ events → .cancelled k ∈ events
  quiet : Quiet key events

section Snoc

variable (events) (event : Event Item Key)

theorem entered_snoc : entered (events ++ [event]) = entered events ++ event.enteredItem.toList := by
  cases h : event.enteredItem <;> simp [entered, h]

theorem taken_snoc : taken (events ++ [event]) = taken events ++ event.takenItem.toList := by
  cases h : event.takenItem <;> simp [taken, h]

theorem ran_snoc : ran (events ++ [event]) = ran events ++ event.ranItem.toList := by
  cases h : event.ranItem <;> simp [ran, h]

end Snoc

theorem kept_nil (key : Item → Key) : Kept key [] [] where
  order := .slnil
  entered_nodup := .nil
  ran_nodup := .nil
  not_ran _ hitem := nomatch hitem
  uncancelled _ hitem := nomatch hitem
  cancelled_of_over _ hover := nomatch hover
  quiet := .nil

theorem seen_of_entered (h : item ∈ entered events) : item ∈ seen events := by
  obtain ⟨event, hevent, hitem⟩ := List.mem_filterMap.mp h
  refine List.mem_filterMap.mpr ⟨event, hevent, ?_⟩
  cases event <;> first | exact hitem | cases hitem

theorem seen_of_ran (h : item ∈ ran events) : item ∈ seen events := by
  obtain ⟨event, hevent, hitem⟩ := List.mem_filterMap.mp h
  refine List.mem_filterMap.mpr ⟨event, hevent, ?_⟩
  cases event <;> first | exact hitem | cases hitem

theorem Kept.entered_of_waiting (h : Kept key events waiting) (hitem : item ∈ waiting) : item ∈ entered events :=
  h.order.subset (List.mem_append_right (taken events) hitem)

theorem not_mem_snoc {event other : Event Item Key} (hevents : event ∉ events) (hne : event ≠ other) :
    event ∉ events ++ [other] := by
  rw [mem_append, mem_singleton]
  exact not_or.mpr ⟨hevents, hne⟩

theorem mem_of_snoc {event other : Event Item Key} (h : event ∈ events ++ [other]) (hne : event ≠ other) :
    event ∈ events :=
  (mem_append.mp h).resolve_right fun hlast ↦ hne (mem_singleton.mp hlast)

theorem Quiet.snoc (h : Quiet key events) {event : Event Item Key}
    (hevent : ∀ item, event.ranItem = some item → .over (key item) ∉ events) : Quiet key (events ++ [event]) := by
  refine List.pairwise_append.mpr ⟨h, List.pairwise_singleton _ _, fun earlier hearlier later hlater item hitem ↦ ?_⟩
  obtain rfl := mem_singleton.mp hlater
  rintro rfl
  exact hevent item hitem hearlier

/-- A new item enters, whose key is not being cancelled. -/
theorem Kept.enter (h : Kept key events waiting) (hnew : item ∉ seen events)
    (hkey : .cancelled (key item) ∉ events) : Kept key (events ++ [.entered item]) (waiting ++ [item]) := by
  have hentered : entered (events ++ [.entered item]) = entered events ++ [item] := entered_snoc events (.entered item)
  have htaken : taken (events ++ [.entered item]) = taken events := by
    rw [taken_snoc]
    exact append_nil _
  have hran : ran (events ++ [.entered item]) = ran events := by
    rw [ran_snoc]
    exact append_nil _
  refine ⟨?_, ?_, ?_, fun other hother ↦ ?_, fun other hother ↦ ?_, fun k hover ↦ ?_, h.quiet.snoc nofun⟩
  · rw [hentered, htaken, ← List.append_assoc]
    exact h.order.append (.refl [item])
  · rw [hentered]
    refine nodup_append.mpr ⟨h.entered_nodup, List.nodup_singleton item, fun other hother new hnew' ↦ ?_⟩
    obtain rfl := mem_singleton.mp hnew'
    rintro rfl
    exact hnew (seen_of_entered hother)
  · rw [hran]
    exact h.ran_nodup
  · rw [hran]
    obtain hother | hother := mem_append.mp hother
    · exact h.not_ran other hother
    · obtain rfl := mem_singleton.mp hother
      exact fun hmem ↦ hnew (seen_of_ran hmem)
  · refine not_mem_snoc ?_ nofun
    obtain hother | hother := mem_append.mp hother
    · exact h.uncancelled other hother
    · obtain rfl := mem_singleton.mp hother
      exact hkey
  · exact mem_append_left _ (h.cancelled_of_over k (mem_of_snoc hover nofun))

theorem Kept.not_over (h : Kept key events waiting) (hitem : item ∈ waiting) : .over (key item) ∉ events := fun hover ↦
  h.uncancelled item hitem (h.cancelled_of_over (key item) hover)

/-- The item at the front is run. -/
theorem Kept.take (h : Kept key events (item :: waiting)) : Kept key (events ++ [.taken item]) waiting := by
  have hentered : entered (events ++ [.taken item]) = entered events := by
    rw [entered_snoc]
    exact append_nil _
  have htaken : taken (events ++ [.taken item]) = taken events ++ [item] := taken_snoc events (.taken item)
  have hran : ran (events ++ [.taken item]) = ran events ++ [item] := ran_snoc events (.taken item)
  have hwaiting : item ∉ waiting := by
    have hnodup := h.entered_nodup.sublist h.order
    exact (List.nodup_cons.mp (nodup_append.mp hnodup).2.1).1
  refine ⟨?_, ?_, ?_, fun other hother ↦ ?_, fun other hother ↦ ?_, fun k hover ↦ ?_, ?_⟩
  · rw [hentered, htaken, List.append_assoc]
    exact h.order
  · rw [hentered]
    exact h.entered_nodup
  · rw [hran]
    refine nodup_append.mpr ⟨h.ran_nodup, List.nodup_singleton item, fun other hother new hnew ↦ ?_⟩
    obtain rfl := mem_singleton.mp hnew
    rintro rfl
    exact h.not_ran other (.head waiting) hother
  · rw [hran, mem_append, mem_singleton]
    refine not_or.mpr ⟨h.not_ran other (.tail item hother), ?_⟩
    rintro rfl
    exact hwaiting hother
  · exact not_mem_snoc (h.uncancelled other (.tail item hother)) nofun
  · exact mem_append_left _ (h.cancelled_of_over k (mem_of_snoc hover nofun))
  · refine h.quiet.snoc fun other hother ↦ ?_
    cases hother
    exact h.not_over (.head waiting)

section

variable (h : Kept key events waiting)
include h

/-- A new item is run directly. -/
theorem Kept.direct (hnew : item ∉ seen events) (hkey : .over (key item) ∉ events) :
    Kept key (events ++ [.direct item]) waiting := by
  have hentered : entered (events ++ [.direct item]) = entered events := by
    rw [entered_snoc]
    exact append_nil _
  have htaken : taken (events ++ [.direct item]) = taken events := by
    rw [taken_snoc]
    exact append_nil _
  have hran : ran (events ++ [.direct item]) = ran events ++ [item] := ran_snoc events (.direct item)
  refine ⟨?_, ?_, ?_, fun other hother ↦ ?_, fun other hother ↦ ?_, fun k hover ↦ ?_, ?_⟩
  · rw [hentered, htaken]
    exact h.order
  · rw [hentered]
    exact h.entered_nodup
  · rw [hran]
    refine nodup_append.mpr ⟨h.ran_nodup, List.nodup_singleton item, fun other hother new hnew' ↦ ?_⟩
    obtain rfl := mem_singleton.mp hnew'
    rintro rfl
    exact hnew (seen_of_ran hother)
  · rw [hran, mem_append, mem_singleton]
    refine not_or.mpr ⟨h.not_ran other hother, ?_⟩
    rintro rfl
    exact hnew (seen_of_entered (h.entered_of_waiting hother))
  · exact not_mem_snoc (h.uncancelled other hother) nofun
  · exact mem_append_left _ (h.cancelled_of_over k (mem_of_snoc hover nofun))
  · refine h.quiet.snoc fun other hother ↦ ?_
    cases hother
    exact hkey

/-- The items of a key are taken out. -/
theorem Kept.cancel [DecidableEq Key] (k : Key) :
    Kept key (events ++ [.cancelled k]) (waiting.filter fun item ↦ key item ≠ k) := by
  have hentered : entered (events ++ [.cancelled k]) = entered events := by
    rw [entered_snoc]
    exact append_nil _
  have htaken : taken (events ++ [.cancelled k]) = taken events := by
    rw [taken_snoc]
    exact append_nil _
  have hran : ran (events ++ [.cancelled k]) = ran events := by
    rw [ran_snoc]
    exact append_nil _
  refine ⟨?_, ?_, ?_, fun other hother ↦ ?_, fun other hother ↦ ?_, fun other hover ↦ ?_, h.quiet.snoc nofun⟩
  · rw [hentered, htaken]
    exact ((List.Sublist.refl _).append List.filter_sublist).trans h.order
  · rw [hentered]
    exact h.entered_nodup
  · rw [hran]
    exact h.ran_nodup
  · rw [hran]
    exact h.not_ran other (List.mem_of_mem_filter hother)
  · obtain ⟨hother, hne⟩ := List.mem_filter.mp hother
    refine not_mem_snoc (h.uncancelled other hother) fun heq ↦ ?_
    exact of_decide_eq_true hne (Event.cancelled.inj heq)
  · exact mem_append_left _ (h.cancelled_of_over other (mem_of_snoc hover nofun))

/-- The cancelling of a key ends. -/
theorem Kept.end_cancel {k : Key} (hcancelled : .cancelled k ∈ events) : Kept key (events ++ [.over k]) waiting := by
  have hentered : entered (events ++ [.over k]) = entered events := by
    rw [entered_snoc]
    exact append_nil _
  have htaken : taken (events ++ [.over k]) = taken events := by
    rw [taken_snoc]
    exact append_nil _
  have hran : ran (events ++ [.over k]) = ran events := by
    rw [ran_snoc]
    exact append_nil _
  refine ⟨?_, ?_, ?_, fun other hother ↦ ?_, fun other hother ↦ ?_, fun other hover ↦ ?_, h.quiet.snoc nofun⟩
  · rw [hentered, htaken]
    exact h.order
  · rw [hentered]
    exact h.entered_nodup
  · rw [hran]
    exact h.ran_nodup
  · rw [hran]
    exact h.not_ran other hother
  · exact not_mem_snoc (h.uncancelled other hother) nofun
  · obtain hover | hover := mem_append.mp hover
    · exact mem_append_left _ (h.cancelled_of_over other hover)
    · obtain rfl := Event.over.inj (mem_singleton.mp hover)
      exact mem_append_left _ hcancelled

/-- Items are taken in the order in which they have entered. -/
theorem Kept.taken_sublist : (taken events).Sublist (entered events) := (List.sublist_append_left _ _).trans h.order

end

end FdeEmugl.CancelQueue
