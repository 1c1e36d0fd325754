import Mathlib.Order.Lattice
import Mathlib.Data.List.Nodup

/-!
# Maps that are kept in the order of their keys

The entries stand in strictly ascending order of keys. A key splits them into
those below it and the others; the first of the others is what a lower bound
search finds, and the last of those below is its predecessor.
-/

namespace FdeEmugl

structure OrderedMap (Key Value : Type*) [LinearOrder Key] where
  entries : List (Key × Value)
  ordered : entries.Pairwise fun first second ↦ first.1 < second.1

namespace OrderedMap

variable {Key Value : Type*} [LinearOrder Key]

@[ext] theorem ext {first second : OrderedMap Key Value} (h : first.entries = second.entries) : first = second := by
  cases first
  cases second
  cases h
  rfl

def empty : OrderedMap Key Value := ⟨[], List.Pairwise.nil⟩

/-- The entries in front of a lower bound. -/
def below (key : Key) (map : OrderedMap Key Value) : List (Key × Value) :=
  map.entries.filter fun entry ↦ entry.1 < key

/-- The entries from a lower bound on. -/
def notBelow (key : Key) (map : OrderedMap Key Value) : List (Key × Value) :=
  map.entries.filter fun entry ↦ ¬ entry.1 < key

/-- The entries behind a key. -/
def above (key : Key) (map : OrderedMap Key Value) : List (Key × Value) :=
  map.entries.filter fun entry ↦ key < entry.1

def find (key : Key) (map : OrderedMap Key Value) : Option Value :=
  (map.entries.find? fun entry ↦ entry.1 = key).map Prod.snd

/-- The map without a key. -/
def erase (key : Key) (map : OrderedMap Key Value) : OrderedMap Key Value where
  entries := map.entries.filter fun entry ↦ entry.1 ≠ key
  ordered := map.ordered.filter _

/-- The map with other values. -/
def mapValues (change : Value → Value) (map : OrderedMap Key Value) : OrderedMap Key Value where
  entries := map.entries.map fun entry ↦ (entry.1, change entry.2)
  ordered := List.pairwise_map.mpr map.ordered

/-- Some of the entries. -/
def restrict (map : OrderedMap Key Value) (entries : List (Key × Value))
    (h : entries.Sublist map.entries) : OrderedMap Key Value :=
  ⟨entries, map.ordered.sublist h⟩

section Lemmas

variable {key : Key} {value : Value} {entry : Key × Value} {map : OrderedMap Key Value}

theorem mem_below : entry ∈ map.below key ↔ entry ∈ map.entries ∧ entry.1 < key := by
  simp [below]

theorem mem_notBelow : entry ∈ map.notBelow key ↔ entry ∈ map.entries ∧ key ≤ entry.1 := by
  simp [notBelow]

theorem mem_above : entry ∈ map.above key ↔ entry ∈ map.entries ∧ key < entry.1 := by
  simp [above]

theorem mem_mapValues {change : Value → Value} : entry ∈ (map.mapValues change).entries ↔
      ∃ old ∈ map.entries, (old.1, change old.2) = entry :=
  List.mem_map

theorem mem_erase : entry ∈ (map.erase key).entries ↔ entry ∈ map.entries ∧ entry.1 ≠ key := by
  simp [erase]

theorem eq_of_key {first second : Key × Value} (hfirst : first ∈ map.entries)
    (hsecond : second ∈ map.entries) (h : first.1 = second.1) : first = second := by
  have hnodup : (map.entries.map Prod.fst).Nodup := List.pairwise_map.mpr (map.ordered.imp fun hlt ↦ hlt.ne)
  exact List.inj_on_of_nodup_map hnodup hfirst hsecond h

theorem find_eq_none : map.find key = none ↔ ∀ entry ∈ map.entries, entry.1 ≠ key := by
  simp [find]

/-- A key that is there is its own lower bound. -/
theorem head_notBelow (h : (key, value) ∈ map.entries) : (map.notBelow key).head? = some (key, value) := by
  have hmem : (key, value) ∈ map.notBelow key := mem_notBelow.mpr ⟨h, le_refl key⟩
  have hordered : (map.notBelow key).Pairwise fun first second ↦ first.1 < second.1 := map.ordered.filter _
  cases hrest : map.notBelow key with
  | nil =>
    rw [hrest] at hmem
    cases hmem
  | cons first rest =>
    rw [hrest] at hmem hordered
    rcases List.mem_cons.mp hmem with rfl | hlater
    · rfl
    · have hlt := (List.pairwise_cons.mp hordered).1 _ hlater
      have hle := (mem_notBelow.mp (hrest ▸ List.mem_cons_self : first ∈ map.notBelow key)).2
      exact absurd hle (not_le.mpr hlt)

/-- The predecessor of a key is the greatest one below it. -/
theorem le_of_getLast_below {last : Key × Value} (hlast : (map.below key).getLast? = some last)
    (hentry : entry ∈ map.entries) (hlt : entry.1 < key) : entry.1 ≤ last.1 := by
  obtain ⟨init, hinit⟩ := List.getLast?_eq_some_iff.mp hlast
  have hmem : entry ∈ init ++ [last] := hinit ▸ mem_below.mpr ⟨hentry, hlt⟩
  have hordered : (init ++ [last]).Pairwise fun first second ↦ first.1 < second.1 := hinit ▸ map.ordered.filter _
  rcases List.mem_append.mp hmem with hfirst | hself
  · have hbefore := (List.pairwise_append.mp hordered).2.2 entry hfirst last (List.mem_singleton_self _)
    exact hbefore.le
  · exact (congrArg Prod.fst (List.mem_singleton.mp hself)).le

/-- The successor of a key is the least one above it. -/
theorem le_of_head_above {first : Key × Value} (hfirst : (map.above key).head? = some first)
    (hentry : entry ∈ map.entries) (hlt : key < entry.1) : first.1 ≤ entry.1 := by
  obtain ⟨rest, hrest⟩ := List.head?_eq_some_iff.mp hfirst
  have hmem : entry ∈ first :: rest := hrest ▸ mem_above.mpr ⟨hentry, hlt⟩
  have hordered : (first :: rest).Pairwise fun first second ↦ first.1 < second.1 := hrest ▸ map.ordered.filter _
  rcases List.mem_cons.mp hmem with rfl | hlater
  · exact le_rfl
  · exact ((List.pairwise_cons.mp hordered).1 entry hlater).le

end Lemmas

/-- What `insert` makes of a map without the key. -/
def add (key : Key) (value : Value) (map : OrderedMap Key Value) (h : map.find key = none) :
    OrderedMap Key Value where
  entries := map.below key ++ (key, value) :: map.notBelow key
  ordered := by
    refine List.pairwise_append.mpr ⟨map.ordered.filter _, List.pairwise_cons.mpr ⟨?_, map.ordered.filter _⟩, ?_⟩
    · intro entry hentry
      obtain ⟨hmem, hle⟩ := mem_notBelow.mp hentry
      exact lt_of_le_of_ne hle (Ne.symm (find_eq_none.mp h entry hmem))
    · intro first hfirst second hsecond
      have hlt := (mem_below.mp hfirst).2
      rcases List.mem_cons.mp hsecond with rfl | hmem
      · exact hlt
      · exact hlt.trans_le (mem_notBelow.mp hmem).2

/-- A key that is there keeps its value, and nothing is inserted. -/
def insert (key : Key) (value : Value) (map : OrderedMap Key Value) : Option (OrderedMap Key Value) :=
  if h : map.find key = none then some (map.add key value h) else none

variable {key : Key} {value : Value} {map : OrderedMap Key Value}

theorem mem_add {entry : Key × Value} {h : map.find key = none} :
    entry ∈ (map.add key value h).entries ↔ entry = (key, value) ∨ entry ∈ map.entries := by
  simp only [add, List.mem_append, List.mem_cons, mem_below, mem_notBelow]
  constructor
  · rintro (hmem | heq | hmem)
    · exact .inr hmem.1
    · exact .inl heq
    · exact .inr hmem.1
  · rintro (heq | hmem)
    · exact .inr (.inl heq)
    · exact (lt_or_ge entry.1 key).imp (⟨hmem, ·⟩) fun hle ↦ .inr ⟨hmem, hle⟩

theorem find_eq_some : map.find key = some value ↔ (key, value) ∈ map.entries := by
  unfold find
  rw [Option.map_eq_some_iff]
  constructor
  · rintro ⟨entry, hfind, rfl⟩
    have hkey : entry.1 = key := by simpa using List.find?_some hfind
    exact hkey ▸ List.mem_of_find?_eq_some hfind
  · intro hmem
    cases hfind : map.entries.find? fun entry ↦ entry.1 = key with
    | none =>
      have hother := List.find?_eq_none.mp hfind _ hmem
      simp at hother
    | some entry =>
      have hkey : entry.1 = key := by simpa using List.find?_some hfind
      have hsame := eq_of_key (List.mem_of_find?_eq_some hfind) hmem hkey
      exact ⟨entry, rfl, congrArg Prod.snd hsame⟩

/-- A key gets a value, whether it had one or not. -/
def put (key : Key) (value : Value) (map : OrderedMap Key Value) : OrderedMap Key Value :=
  (map.erase key).add key value (find_eq_none.mpr fun _ hentry ↦ (mem_erase.mp hentry).2)

theorem mem_put {entry : Key × Value} :
    entry ∈ (map.put key value).entries ↔ entry = (key, value) ∨ entry ∈ map.entries ∧ entry.1 ≠ key := by
  unfold put
  rw [mem_add, mem_erase]

theorem nodup_entries (map : OrderedMap Key Value) : map.entries.Nodup :=
  map.ordered.imp fun hlt heq ↦ hlt.ne (congrArg Prod.fst heq)

theorem entries_put_perm : (map.put key value).entries.Perm ((key, value) :: (map.erase key).entries) := by
  have hsplit := List.filter_append_perm (fun entry : Key × Value ↦ decide (entry.1 < key)) (map.erase key).entries
  refine List.perm_middle.trans (.cons _ ?_)
  simpa only [below, notBelow, decide_not] using hsplit

theorem entries_perm_erase (h : map.find key = some value) :
    map.entries.Perm ((key, value) :: (map.erase key).entries) := by
  have hmem := find_eq_some.mp h
  have hnot : (key, value) ∉ (map.erase key).entries := fun hin ↦ (mem_erase.mp hin).2 rfl
  refine (List.perm_ext_iff_of_nodup map.nodup_entries
    (List.nodup_cons.mpr ⟨hnot, (map.erase key).nodup_entries⟩)).mpr fun entry ↦ ?_
  rw [List.mem_cons, mem_erase]
  constructor
  · intro hentry
    by_cases hkey : entry.1 = key
    · exact .inl (eq_of_key hentry hmem hkey)
    · exact .inr ⟨hentry, hkey⟩
  · intro hentry
    obtain rfl | hother := hentry
    · exact hmem
    · exact hother.1

theorem entries_erase_of_find (h : map.find key = none) : (map.erase key).entries = map.entries :=
  List.filter_eq_self.mpr fun entry hentry ↦ decide_eq_true (find_eq_none.mp h entry hentry)

/-- A key that is greater than all others goes to the end. -/
theorem entries_put_last {first last : List (Key × Value)} (h : map.entries = first ++ last)
    (hfirst : ∀ entry ∈ first, entry.1 < key) (hlast : ∀ entry ∈ last, entry.1 = key) :
    (map.put key value).entries = first ++ [(key, value)] := by
  have herase : (map.erase key).entries = first := by
    have hkept := List.filter_eq_self.mpr fun entry hentry ↦ decide_eq_true (hfirst entry hentry).ne
    have hgone : last.filter (fun entry ↦ decide (entry.1 ≠ key)) = [] :=
      List.filter_eq_nil_iff.mpr fun entry hentry ↦ by simp [hlast entry hentry]
    change map.entries.filter _ = first
    rw [h, List.filter_append, hkept, hgone, List.append_nil]
  have hbelow : (map.erase key).below key = first := by
    rw [below, herase]
    exact List.filter_eq_self.mpr fun entry hentry ↦ decide_eq_true (hfirst entry hentry)
  have hnot : (map.erase key).notBelow key = [] := by
    rw [notBelow, herase]
    exact List.filter_eq_nil_iff.mpr fun entry hentry ↦ by simp [hfirst entry hentry]
  change (map.erase key).below key ++ (key, value) :: (map.erase key).notBelow key = first ++ [(key, value)]
  rw [hbelow, hnot]

/-- Maps with the same entries are the same. -/
theorem eq_of_mem_iff {first second : OrderedMap Key Value}
    (h : ∀ entry, entry ∈ first.entries ↔ entry ∈ second.entries) : first = second := by
  have hperm := (List.perm_ext_iff_of_nodup first.nodup_entries second.nodup_entries).mpr h
  exact ext (hperm.eq_of_pairwise (fun _ _ _ _ hlt hgt ↦ absurd hgt hlt.asymm) first.ordered second.ordered)

theorem insert_eq_some {next : OrderedMap Key Value} (h : map.insert key value = some next) :
    ∃ hnone, next = map.add key value hnone := by
  unfold insert at h
  split_ifs at h with hnone
  exact ⟨hnone, (Option.some.inj h).symm⟩

end OrderedMap

end FdeEmugl
