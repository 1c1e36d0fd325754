import FdeEmugl.Base.IniFile
import Mathlib.Data.List.ReduceOption

/-!
# Ini files that are read and written again

Every line that is not dropped has a place, but a line whose key is known already is not written again. So the places
of the comments behind it are too far down for the writer, and no comment is written behind the last key.
-/

namespace FdeEmugl.Ini

open Lines IniFile

/-! ## What a file says -/

/-- The items of a file, without the lines that are dropped. -/
def items (content : Text) : List Item := (lines lineFeed content).filterMap parseLine

/-- The value of the last entry with a key. -/
def lastValue (key : Text) : List Item → Option Text
  | [] => none
  | .comment _ :: items => lastValue key items
  | .entry other value :: items => (lastValue key items).or (if other = key then some value else none)

/-- The places of the items: a key has the place where it stands first, and the line of a known key is an empty
place. `seen` are the keys so far. -/
def places (values : Text → Option Text) (seen : List Text) : List Item → List (Option Item)
  | [] => []
  | .comment text :: items => some (.comment text) :: places values seen items
  | .entry key _ :: items =>
    if key ∈ seen then none :: places values seen items
    else some (.entry key ((values key).getD [])) :: places values (seen ++ [key]) items

def placesOf (items : List Item) : List (Option Item) := places (lastValue · items) [] items

/-- The comments and the keys with their last values, in the order in which they stand in the file. -/
def layout (content : Text) : List Item := (placesOf (items content)).reduceOption

/-- The file is read with its comments and written again. -/
def rewrite (content : Text) : Text := (parseStream true content).write

/-- The keys and values stay, all comments stay in their order and between the same keys, and the file does not change
a second time. -/
structure Rewrites (content : Text) : Prop where
  entries_eq : (parseStream true (rewrite content)).entries = (parseStream true content).entries
  layout_eq : layout (rewrite content) = layout content
  stable : rewrite (rewrite content) = rewrite content

def isComment : Option Item → Bool
  | some (.comment _) => true
  | _ => false

def isEntry : Option Item → Bool
  | some (.entry _ _) => true
  | _ => false

/-- Behind every comment there is a new key, and in front of it there is no line with a known key. -/
def Kept : List (Option Item) → Prop
  | [] => True
  | none :: places => places.any isComment = false
  | some (.comment _) :: places => places.any isEntry = true ∧ Kept places
  | some (.entry _ _) :: places => Kept places

/-! ## Reading -/

/-- The comments with the numbers of their places. -/
def numbered (lineno : ℕ) : List (Option Item) → List (ℕ × Text)
  | [] => []
  | some (.comment text) :: places => (lineno + 1, text) :: numbered (lineno + 1) places
  | some (.entry _ _) :: places => numbered (lineno + 1) places
  | none :: places => numbered (lineno + 1) places

def entriesOf : List (Option Item) → List (Text × Text)
  | [] => []
  | some (.comment _) :: places => entriesOf places
  | some (.entry key value) :: places => (key, value) :: entriesOf places
  | none :: places => entriesOf places

/-- A file with the comments and entries of some places. -/
structure IniFile.Holds (ini : IniFile) (places : List (Option Item)) : Prop where
  comments : ini.mComments = numbered 0 places
  entries : ini.entries = entriesOf places

section Reading

theorem foldl_readLine (values : Text → Option Text) (texts : List Text) (lineno : ℕ) (ini : IniFile) :
    (texts.foldl (readLine true) (lineno, ini)).2.mComments =
        ini.mComments ++ numbered lineno (places values ini.mOrderList (texts.filterMap parseLine)) ∧
      (texts.foldl (readLine true) (lineno, ini)).2.mOrderList =
        ini.mOrderList ++ (entriesOf (places values ini.mOrderList (texts.filterMap parseLine))).map Prod.fst := by
  induction texts generalizing lineno ini with
  | nil => exact ⟨(List.append_nil _).symm, (List.append_nil _).symm⟩
  | cons text texts ih =>
    rw [List.foldl_cons, readLine]
    cases hparse : parseLine text with
    | none =>
      rw [List.filterMap_cons_none hparse]
      exact ih lineno ini
    | some item =>
      rw [List.filterMap_cons_some hparse]
      cases item with
      | comment line =>
        obtain ⟨hcomments, horder⟩ := ih (lineno + 1) (ini.addComment (lineno + 1) line)
        refine ⟨hcomments.trans ?_, horder⟩
        rw [addComment, List.append_assoc]
        rfl
      | entry key value =>
        obtain ⟨hcomments, horder⟩ := ih (lineno + 1) (ini.updateData key value)
        refine ⟨hcomments.trans ?_, horder.trans ?_⟩
        · rw [places, updateData]
          split_ifs <;> rfl
        · rw [places, updateData]
          split_ifs
          · rfl
          · simp [entriesOf]

theorem mData_parseStream (keepComments : Bool) (content key : Text) :
    (parseStream keepComments content).mData key = lastValue key (items content) := by
  suffices hfold : ∀ (texts : List Text) (state : ℕ × IniFile),
      (texts.foldl (readLine keepComments) state).2.mData key =
        (lastValue key (texts.filterMap parseLine)).or (state.2.mData key) from
    (hfold _ _).trans Option.or_none
  intro texts
  induction texts with
  | nil => exact fun _ ↦ rfl
  | cons text texts ih =>
    intro state
    rw [List.foldl_cons, ih, readLine]
    cases hparse : parseLine text with
    | none => rw [List.filterMap_cons_none hparse]
    | some item =>
      rw [List.filterMap_cons_some hparse]
      cases item with
      | comment line => cases keepComments <;> rfl
      | entry other value =>
        rw [lastValue, Option.or_assoc]
        by_cases heq : other = key
        · rw [heq, mData_updateData_self, if_pos rfl, Option.some_or]
        · rw [mData_updateData_of_ne _ _ (Ne.symm heq), if_neg heq, Option.none_or]

theorem entriesOf_places (values : Text → Option Text) (seen : List Text) (items : List Item) :
    (entriesOf (places values seen items)).map (fun entry ↦ (entry.1, (values entry.1).getD [])) =
      entriesOf (places values seen items) := by
  induction items generalizing seen with
  | nil => rfl
  | cons item items ih =>
    cases item with
    | comment text => exact ih seen
    | entry key value =>
      rw [places]
      split_ifs
      · exact ih seen
      · rw [entriesOf, List.map_cons, ih]

theorem holds_parseStream (content : Text) : (parseStream true content).Holds (placesOf (items content)) := by
  obtain ⟨hcomments, horder⟩ := foldl_readLine (lastValue · (items content))
    (lines lineFeed content) 0 .empty
  refine ⟨hcomments.trans (List.nil_append _), ?_⟩
  calc
    (parseStream true content).entries =
        (parseStream true content).mOrderList.map fun key ↦ (key, (lastValue key (items content)).getD []) :=
      List.map_congr_left fun key _ ↦ by rw [mData_parseStream]
    _ = entriesOf (placesOf (items content)) := by
      rw [parseStream, horder, empty, List.nil_append, List.map_map]
      exact entriesOf_places (lastValue · (items content)) [] (items content)

/-- The items of a file that was written are the items that were written. -/
theorem items_unlines {written : List Item} (h : ∀ item ∈ written, item.Printable) :
    items (unlines lineFeed (written.map Item.line)) = written := by
  have hlines : ∀ line ∈ written.map Item.line, lineFeed ∉ line := by
    intro line hline
    obtain ⟨item, hitem, rfl⟩ := List.mem_map.mp hline
    exact (h item hitem).oneLine
  rw [items, lines_unlines hlines, List.filterMap_map]
  exact (List.filterMap_congr fun item hitem ↦ (h item hitem).reads).trans List.filterMap_some

end Reading

/-! ## Writing -/

section Writing

variable {item : Item} {written : List Item}

/-- The entries that are written. -/
def entriesIn (written : List Item) : List (Text × Text) := entriesOf (written.map some)

variable (lineno : ℕ)

theorem writeComments_of_lt {lineno : ℕ} {comments : List (ℕ × Text)}
    (h : ∀ comment ∈ comments.head?, lineno < comment.1) : writeComments lineno comments = ([], lineno, comments) := by
  cases comments with
  | nil => rfl
  | cons comment comments => exact if_neg (Nat.not_le_of_lt (h comment rfl))

theorem lt_of_mem_numbered {lineno : ℕ} {places : List (Option Item)} :
    ∀ comment ∈ numbered lineno places, lineno < comment.1 := by
  induction places generalizing lineno with
  | nil => exact fun _ h ↦ absurd h List.not_mem_nil
  | cons place places ih =>
    have hlater : ∀ comment ∈ numbered (lineno + 1) places, lineno < comment.1 := fun comment h ↦
      Nat.lt_of_succ_lt (ih comment h)
    obtain _ | ⟨text⟩ | ⟨key, value⟩ := place
    · exact hlater
    · exact List.forall_mem_cons.mpr ⟨Nat.lt_succ_self _, hlater⟩
    · exact hlater

theorem entriesOf_eq_nil {places : List (Option Item)} : entriesOf places = [] ↔ places.any isEntry = false := by
  induction places with
  | nil => exact iff_of_true rfl rfl
  | cons place places ih =>
    obtain _ | ⟨text⟩ | ⟨key, value⟩ := place
    · exact ih
    · exact ih
    · exact iff_of_false (List.cons_ne_nil _ _) (Bool.not_eq_false _ ▸ rfl)

/-- One turn of the loop over the keys. A comment is the first of what is written exactly if it is due. -/
theorem writeEntries_cons (comments : List (ℕ × Text)) (key value : Text) (entries : List (Text × Text)) :
    (∀ text number, number ≤ lineno + 1 →
      writeEntries false lineno ((number, text) :: comments) ((key, value) :: entries) =
        .comment text :: writeEntries false (lineno + 1) comments ((key, value) :: entries)) ∧
    ((∀ comment ∈ comments.head?, lineno + 1 < comment.1) →
      writeEntries false lineno comments ((key, value) :: entries) =
        .entry key value :: writeEntries false (lineno + 1) comments entries) := by
  refine ⟨fun text number hdue ↦ ?_, fun hlater ↦ ?_⟩
  · rw [writeEntries, writeEntries, writeComments, if_pos hdue]
    rfl
  · rw [writeEntries, writeComments_of_lt hlater]
    rfl

/-- The writer is `lag` lines behind the numbers of the comments. It finds all places again exactly if no comment comes
too late and none is left. -/
theorem writeEntries_eq_iff (lag : ℕ) (places : List (Option Item)) :
    writeEntries false lineno (numbered (lineno + lag) places) (entriesOf places) = places.reduceOption ↔
      if lag = 0 then Kept places else places.any isComment = false := by
  induction places generalizing lineno lag with
  | nil => simp [entriesOf, writeEntries, Kept]
  | cons place places ih =>
    obtain _ | ⟨text⟩ | ⟨key, value⟩ := place
    · rw [List.reduceOption_cons_of_none]
      refine (ih lineno (lag + 1)).trans ?_
      simp [Kept, isComment]
    · rw [List.reduceOption_cons_of_some, numbered, entriesOf]
      cases hentries : entriesOf places with
      | nil =>
        have hnone := entriesOf_eq_nil.mp hentries
        simp [writeEntries, Kept, isComment, hnone]
      | cons entry entries =>
        obtain ⟨key, value⟩ := entry
        have hsome : places.any isEntry = true := Bool.of_not_eq_false fun hnone ↦
          List.cons_ne_nil _ _ (hentries.symm.trans (entriesOf_eq_nil.mpr hnone))
        by_cases hlag : lag = 0
        · subst hlag
          have hnext := ih (lineno + 1) 0
          rw [hentries] at hnext
          rw [(writeEntries_cons _ _ _ _ _).1 _ _ (Nat.le_refl _), List.cons_inj_right, if_pos rfl, Kept, hsome]
          simpa using hnext
        · have hlater : ∀ comment ∈ ((lineno + lag + 1, text) :: numbered (lineno + lag + 1) places).head?,
              lineno + 1 < comment.1 := by
            rintro comment ⟨⟩
            simp only
            omega
          rw [(writeEntries_cons _ _ _ _ _).2 hlater, if_neg hlag]
          simp [isComment]
    · have hlater : ∀ comment ∈ (numbered (lineno + lag + 1) places).head?, lineno + 1 < comment.1 := by
        intro comment h
        have hlt := lt_of_mem_numbered comment (List.mem_of_mem_head? h)
        omega
      rw [List.reduceOption_cons_of_some, numbered, entriesOf, (writeEntries_cons _ _ _ _ _).2 hlater,
        List.cons_inj_right, Nat.add_right_comm, ih]
      simp [Kept, isComment]

/-- Whatever the numbers of the comments are, each of them is written in front of a key. -/
theorem writeEntries_spec {Good : Item → Prop} (comments : List (ℕ × Text)) (entries : List (Text × Text))
    (hcomments : ∀ comment ∈ comments, Good (.comment comment.2))
    (hentries : ∀ entry ∈ entries, Good (.entry entry.1 entry.2)) :
    entriesIn (writeEntries false lineno comments entries) = entries ∧
      Kept ((writeEntries false lineno comments entries).map some) ∧
      ∀ item ∈ writeEntries false lineno comments entries, Good item := by
  induction entries generalizing lineno comments with
  | nil => exact ⟨rfl, trivial, fun _ h ↦ absurd h List.not_mem_nil⟩
  | cons entry entries ihEntries =>
    obtain ⟨key, value⟩ := entry
    obtain ⟨hentry, hlater⟩ := List.forall_mem_cons.mp hentries
    induction comments generalizing lineno with
    | nil =>
      obtain ⟨heq, hkept, hgood⟩ := ihEntries (lineno + 1) [] hcomments hlater
      rw [(writeEntries_cons _ _ _ _ _).2 fun _ h ↦ absurd h (Option.not_mem_none _)]
      exact ⟨congrArg _ heq, hkept, List.forall_mem_cons.mpr ⟨hentry, hgood⟩⟩
    | cons comment comments ih =>
      obtain ⟨number, text⟩ := comment
      obtain ⟨hcomment, hothers⟩ := List.forall_mem_cons.mp hcomments
      by_cases hdue : number ≤ lineno + 1
      · obtain ⟨heq, hkept, hgood⟩ := ih (lineno + 1) hothers
        have hsome := Bool.of_not_eq_false fun hnone ↦
          List.cons_ne_nil _ _ (heq.symm.trans (entriesOf_eq_nil.mpr hnone))
        rw [(writeEntries_cons _ _ _ _ _).1 _ _ hdue]
        exact ⟨heq, ⟨hsome, hkept⟩, List.forall_mem_cons.mpr ⟨hcomment, hgood⟩⟩
      · obtain ⟨heq, hkept, hgood⟩ := ihEntries (lineno + 1) ((number, text) :: comments) hcomments hlater
        rw [(writeEntries_cons _ _ _ _ _).2 (by rintro _ ⟨⟩; exact Nat.lt_of_not_le hdue)]
        exact ⟨congrArg _ heq, hkept, List.forall_mem_cons.mpr ⟨hentry, hgood⟩⟩

end Writing

/-! ## Reading what was written -/

/-- What is in the file can be written as lines. -/
structure IniFile.Printable (ini : IniFile) : Prop where
  comments : ∀ comment ∈ ini.mComments, (Item.comment comment.2).Printable
  values : ∀ key value, ini.mData key = some value → (Item.entry key value).Printable

section Printable

variable {ini : IniFile} {key value : Text} {written : List Item}

theorem IniFile.Printable.updateData (h : ini.Printable) (hentry : (Item.entry key value).Printable) :
    (ini.updateData key value).Printable := by
  refine ⟨h.comments, fun other found hfound ↦ ?_⟩
  by_cases heq : other = key
  · rw [heq, mData_updateData_self] at hfound
    cases hfound
    rwa [heq]
  · rw [mData_updateData_of_ne _ _ heq] at hfound
    exact h.values other found hfound

theorem printable_parseStream (keepComments : Bool) (content : Text) :
    (parseStream keepComments content).Printable := by
  suffices hfold : ∀ (texts : List Text) (state : ℕ × IniFile), (∀ text ∈ texts, lineFeed ∉ text) → state.2.Printable →
      (texts.foldl (readLine keepComments) state).2.Printable from
    hfold _ _ (fun _ ↦ notMem_of_mem_lines)
      ⟨fun _ h ↦ absurd h List.not_mem_nil, fun _ _ h ↦ absurd h.symm (Option.some_ne_none _)⟩
  intro texts
  induction texts with
  | nil => exact fun _ _ h ↦ h
  | cons text texts ih =>
    intro state htexts h
    obtain ⟨htext, htexts⟩ := List.forall_mem_cons.mp htexts
    refine ih _ htexts ?_
    rw [readLine]
    cases hparse : parseLine text with
    | none => exact h
    | some item =>
      have hitem := printable_of_parseLine htext hparse
      cases item with
      | entry key value => exact h.updateData hitem
      | comment line =>
        cases keepComments with
        | false => exact h
        | true =>
          refine ⟨fun comment hmem ↦ ?_, h.values⟩
          obtain hmem | hmem := List.mem_append.mp hmem
          · exact h.comments comment hmem
          · rw [List.mem_singleton.mp hmem]
            exact hitem

theorem lastValue_eq_none (h : key ∉ (entriesIn written).map Prod.fst) : lastValue key written = none := by
  induction written with
  | nil => rfl
  | cons item written ih =>
    cases item with
    | comment text => exact ih h
    | entry other value =>
      rw [lastValue, ih (List.not_mem_of_not_mem_cons h), if_neg (List.ne_of_not_mem_cons h).symm, Option.or_none]

theorem lastValue_of_mem (hnodup : ((entriesIn written).map Prod.fst).Nodup) (h : (key, value) ∈ entriesIn written) :
    lastValue key written = some value := by
  induction written with
  | nil => cases h
  | cons item written ih =>
    cases item with
    | comment text => exact ih hnodup h
    | entry other found =>
      obtain ⟨hother, hnodup⟩ := List.nodup_cons.mp hnodup
      obtain heq | h := List.mem_cons.mp h
      · cases heq
        rw [lastValue, lastValue_eq_none hother, if_pos rfl, Option.none_or]
      · rw [lastValue, ih hnodup h, Option.some_or]

theorem places_of_nodup {values : Text → Option Text} {seen : List Text}
    (hnodup : (seen ++ (entriesIn written).map Prod.fst).Nodup)
    (hvalues : ∀ entry ∈ entriesIn written, values entry.1 = some entry.2) :
    places values seen written = written.map some := by
  induction written generalizing seen with
  | nil => rfl
  | cons item written ih =>
    cases item with
    | comment text => exact congrArg _ (ih hnodup hvalues)
    | entry key value =>
      obtain ⟨hvalue, hvalues⟩ := List.forall_mem_cons.mp hvalues
      have hnew : key ∉ seen := fun hmem ↦
        (List.nodup_append.mp hnodup).2.2 key hmem key List.mem_cons_self rfl
      have hrest : (seen ++ [key] ++ (entriesIn written).map Prod.fst).Nodup := by
        rwa [List.append_assoc]
      rw [places, if_neg hnew, hvalue, ih hrest hvalues]
      rfl

section Write

variable (h : ini.Printable)

include h

/-- What is read from a file that was written. -/
theorem IniFile.Printable.write :
    items ini.write = writeEntries false 0 ini.mComments ini.entries ∧ entriesIn (items ini.write) = ini.entries ∧
      Kept ((items ini.write).map some) := by
  have hvalues : ∀ entry ∈ ini.entries, (Item.entry entry.1 entry.2).Printable := by
    intro entry hentry
    obtain ⟨key, hkey, rfl⟩ := List.mem_map.mp hentry
    obtain ⟨value, hvalue⟩ := Option.isSome_iff_exists.mp ((ini.listed key).mpr hkey)
    rw [hvalue]
    exact h.values key value hvalue
  obtain ⟨heq, hkept, hprintable⟩ := writeEntries_spec 0 ini.mComments ini.entries h.comments hvalues
  have hitems : items ini.write = writeEntries false 0 ini.mComments ini.entries := items_unlines hprintable
  rw [hitems]
  exact ⟨rfl, heq, hkept⟩

theorem IniFile.Printable.keys_eq : (entriesIn (items ini.write)).map Prod.fst = ini.mOrderList := by
  rw [h.write.2.1, entries, List.map_map]
  exact List.map_id _

theorem IniFile.Printable.placesOf_write : placesOf (items ini.write) = (items ini.write).map some := by
  have hnodup : ((entriesIn (items ini.write)).map Prod.fst).Nodup := h.keys_eq ▸ ini.nodup
  exact places_of_nodup hnodup fun entry hentry ↦ lastValue_of_mem hnodup hentry

/-- Every value is found in the file. -/
theorem IniFile.Printable.mData_write (keepComments : Bool) (key : Text) :
    (parseStream keepComments ini.write).mData key = ini.mData key := by
  rw [mData_parseStream]
  cases hvalue : ini.mData key with
  | none =>
    refine lastValue_eq_none fun hmem ↦ ?_
    rw [h.keys_eq, ← ini.listed, hvalue] at hmem
    cases hmem
  | some value =>
    refine lastValue_of_mem (h.keys_eq ▸ ini.nodup) ?_
    rw [h.write.2.1]
    refine List.mem_map.mpr ⟨key, (ini.listed key).mp (Option.isSome_of_mem hvalue), ?_⟩
    rw [hvalue]
    rfl

end Write

end Printable

/-! ## Rewriting -/

/-- A file keeps what it says exactly if no comment or blank line stands behind the last new key or behind a line with
a known key. -/
theorem rewrites_iff (content : Text) : Rewrites content ↔ Kept (placesOf (items content)) := by
  obtain ⟨hcomments, hentries⟩ := holds_parseStream content
  obtain ⟨hcomments', hentries'⟩ := holds_parseStream (rewrite content)
  have hprintable := printable_parseStream true content
  obtain ⟨hitems, heq, hkept⟩ := hprintable.write
  have hplaces : placesOf (items (rewrite content)) = (items (rewrite content)).map some := hprintable.placesOf_write
  have hwhole : ((items (rewrite content)).map some).reduceOption = items (rewrite content) := by
    rw [List.reduceOption, List.filterMap_map]
    exact List.filterMap_some
  have hlayout : layout (rewrite content) = items (rewrite content) := by
    rw [layout, hplaces, hwhole]
  have hiff : items (rewrite content) = layout content ↔ Kept (placesOf (items content)) := by
    rw [rewrite, hitems, hcomments, hentries]
    exact writeEntries_eq_iff 0 0 _
  have hagain : writeEntries false 0 (parseStream true (rewrite content)).mComments
      (parseStream true (rewrite content)).entries = items (rewrite content) := by
    rw [hcomments', hentries', hplaces]
    exact ((writeEntries_eq_iff 0 0 _).mpr hkept).trans hwhole
  constructor
  · intro h
    exact hiff.mp (hlayout.symm.trans h.layout_eq)
  · intro h
    refine ⟨?_, hlayout.trans (hiff.mpr h), ?_⟩
    · rw [hentries', hplaces]
      exact heq
    · calc
        rewrite (rewrite content) = unlines lineFeed ((items (rewrite content)).map Item.line) := by
          rw [rewrite, IniFile.write, writeCommon, hagain]
        _ = rewrite content := by
          rw [rewrite, hitems]
          rfl

/-- The file has a key and a comment behind it. -/
theorem last_comment_lost : ¬Rewrites [97, 61, 49, 10, 35, 99, 10] := fun h ↦
  absurd h.layout_eq (by decide +kernel)

end FdeEmugl.Ini
