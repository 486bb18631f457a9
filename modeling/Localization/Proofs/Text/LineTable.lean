import Localization.Proofs.Text.Slices

/-!
# Counting in a line table

A line table is read off a text from left to right, so the table of a text made of two pieces is
the tables of the pieces, as long as no line break lies across the cut. Behind whole lines and a
part of a line, the table therefore counts those lines, and the column counts that part.

## Main statements

* `LineTable.startsFrom_append` — the lines of two pieces
* `LineTable.mem_starts` — where a line starts
* `LineTable.lineAt_eq_countP` — what the search for a line finds
* `LineTable.position_ofText` — the position behind whole lines and a part of a line
-/

namespace Localization.LineTable

open Text (EndsLine IsEnding Joins byteLength)

variable {text rest lines current : List Char} {ch : Char}

theorem startsFrom_cons (offset : Nat) (h : ch = '\r' → rest.head? ≠ some '\n') :
    startsFrom offset (ch :: rest) =
      if isLineBreak ch then (offset + 1) :: startsFrom (offset + 1) rest
      else startsFrom (offset + ch.utf8Size) rest := by
  rw [startsFrom]
  rintro tail rfl rfl
  exact h rfl rfl

theorem utf8Size_of_isLineBreak (h : isLineBreak ch) : ch.utf8Size = 1 := by
  rcases Text.isLineBreak_iff.1 h with rfl | rfl <;> decide

theorem byteLength_pair_cons (text : List Char) :
    byteLength ('\r' :: '\n' :: text) = 2 + byteLength text := by
  rw [Text.byteLength_cons, Text.byteLength_cons, ← Nat.add_assoc]
  rfl

theorem head?_append_ne (hcrlf : ∀ tail, ch = '\r' → text = '\n' :: tail → False)
    (h : ¬Joins (ch :: text) rest) : ch = '\r' → (text ++ rest).head? ≠ some '\n' := by
  rintro rfl hhead
  cases text with
  | nil => exact h ⟨rfl, hhead⟩
  | cons second text =>
    obtain rfl := Option.some.inj hhead
    exact hcrlf text rfl rfl

/-- The lines of two pieces are those of the first and those of the second, unless a line break
lies across the cut. -/
theorem startsFrom_append (offset : Nat) (h : ¬Joins text rest) :
    startsFrom offset (text ++ rest) =
      startsFrom offset text ++ startsFrom (offset + byteLength text) rest := by
  fun_induction startsFrom offset text with
  | case1 => simp
  | case2 offset text ih =>
    rw [List.cons_append, List.cons_append, startsFrom,
      ih (Text.not_joins_of_cons (Text.not_joins_of_cons h)), List.cons_append,
      byteLength_pair_cons, Nat.add_assoc]
  | case3 offset ch text hcrlf hbreak ih =>
    rw [List.cons_append, startsFrom_cons offset (head?_append_ne hcrlf h), if_pos hbreak,
      ih (Text.not_joins_of_cons h), List.cons_append, Text.byteLength_cons,
      utf8Size_of_isLineBreak hbreak, Nat.add_assoc]
  | case4 offset ch text hcrlf hbreak ih =>
    rw [List.cons_append, startsFrom_cons offset (head?_append_ne hcrlf h), if_neg hbreak,
      ih (Text.not_joins_of_cons h), Text.byteLength_cons, Nat.add_assoc]

theorem startsFrom_eq_nil (offset : Nat) (h : ∀ ch ∈ text, isLineBreak ch = false) :
    startsFrom offset text = [] := by
  fun_induction startsFrom offset text with
  | case1 => rfl
  | case2 _ _ _ => cases h '\r' (by simp)
  | case3 _ ch _ _ hbreak _ =>
    rw [h ch (by simp)] at hbreak
    cases hbreak
  | case4 _ _ _ _ _ ih => exact ih fun ch hch => h ch (by simp [hch])

theorem startsFrom_isEnding {ending : List Char} (offset : Nat) (h : IsEnding ending) :
    startsFrom offset ending = [offset + byteLength ending] := by
  rcases h with rfl | rfl | rfl <;> rfl

/-- Every line starts behind the start of the text, and within it. -/
theorem bounds_of_mem_startsFrom {offset start : Nat} (h : start ∈ startsFrom offset text) :
    offset < start ∧ start ≤ offset + byteLength text := by
  fun_induction startsFrom offset text with
  | case1 => cases h
  | case2 offset text ih =>
    rw [byteLength_pair_cons]
    rcases List.mem_cons.1 h with rfl | h
    · omega
    · have := ih h
      omega
  | case3 offset ch text _ hbreak ih =>
    rw [Text.byteLength_cons, utf8Size_of_isLineBreak hbreak]
    rcases List.mem_cons.1 h with rfl | h
    · omega
    · have := ih h
      omega
  | case4 offset ch text _ _ ih =>
    have := ih h
    rw [Text.byteLength_cons]
    omega

/-- A text has no more line breaks than characters. -/
theorem length_startsFrom_le (offset : Nat) (text : List Char) :
    (startsFrom offset text).length ≤ text.length := by
  fun_induction startsFrom offset text with
  | case1 => exact Nat.le_refl _
  | case2 offset text ih =>
    simp only [List.length_cons]
    omega
  | case3 offset ch text _ _ ih =>
    simp only [List.length_cons]
    omega
  | case4 offset ch text _ _ ih =>
    simp only [List.length_cons]
    omega

/-- Behind a text that ends with a line break the last line starts. -/
theorem getLast?_startsFrom (offset : Nat) (h : EndsLine text) :
    (startsFrom offset text).getLast? = some (offset + byteLength text) := by
  -- the line break at the end is the last piece of the text, whatever stands in front
  obtain ⟨before, ending, hending, hcut, rfl⟩ := h.exists_ending
  rw [startsFrom_append offset hcut, startsFrom_isEnding _ hending, List.getLast?_concat,
    Text.byteLength_append, Nat.add_assoc]

/-- A line of a text starts at its start and behind every line break. -/
theorem mem_starts (hline : text = [] ∨ EndsLine text) (hfeed : rest.head? ≠ some '\n') :
    byteLength text ∈ (ofText (text ++ rest)).starts := by
  rcases hline with rfl | hline
  · exact List.mem_cons_self
  · refine List.mem_cons_of_mem _ ?_
    rw [startsFrom_append 0 (Text.not_joins_of_head? hfeed)]
    have hlast := List.mem_of_getLast? (getLast?_startsFrom 0 hline)
    rw [Nat.zero_add] at hlast
    exact List.mem_append_left _ hlast

theorem pairwise_startsFrom (offset : Nat) (text : List Char) :
    (startsFrom offset text).Pairwise (· < ·) := by
  fun_induction startsFrom offset text with
  | case1 => exact .nil
  | case2 offset text ih =>
    exact List.pairwise_cons.2 ⟨fun start hstart => (bounds_of_mem_startsFrom hstart).1, ih⟩
  | case3 offset ch text _ _ ih =>
    exact List.pairwise_cons.2 ⟨fun start hstart => (bounds_of_mem_startsFrom hstart).1, ih⟩
  | case4 _ _ _ _ _ ih => exact ih

/-- Each line starts behind the one in front of it. -/
theorem pairwise_starts (source : List Char) : (ofText source).starts.Pairwise (· < ·) :=
  List.pairwise_cons.2
    ⟨fun _ hstart => (bounds_of_mem_startsFrom hstart).1, pairwise_startsFrom 0 source⟩

/-! ### Searching -/

/-- In an ordered list the entries up to a value are the first ones. -/
theorem getD_le_iff {entries : List Nat} {index : Nat} (value : Nat)
    (hsorted : entries.Pairwise (· < ·)) (hindex : index < entries.length) :
    entries.getD index 0 ≤ value ↔ index < entries.countP (· ≤ value) := by
  induction entries generalizing index with
  | nil => cases hindex
  | cons entry entries ih =>
    obtain ⟨hentry, hsorted⟩ := List.pairwise_cons.1 hsorted
    by_cases hle : entry ≤ value
    · rw [List.countP_cons_of_pos (by simpa using hle)]
      cases index with
      | zero => simpa using hle
      | succ index =>
        rw [List.getD_cons_succ, ih hsorted (Nat.lt_of_succ_lt_succ hindex), Nat.succ_lt_succ_iff]
    · -- then all the others are greater still
      have hgreater : ∀ other ∈ entry :: entries, ¬other ≤ value := by
        intro other hother
        rcases List.mem_cons.1 hother with rfl | hother
        · exact hle
        · have := hentry other hother
          omega
      rw [List.countP_eq_zero.2 (by simpa using hgreater), List.getD_eq_getElem?_getD,
        List.getElem?_eq_getElem hindex, Option.getD_some]
      exact iff_of_false (hgreater _ (List.getElem_mem hindex)) (Nat.not_lt_zero _)

/-- A search keeps the last entry that is not greater among those that it still looks at. -/
theorem searchFrom_eq {starts : List Nat} {offset base size : Nat}
    (hsorted : starts.Pairwise (· < ·)) (hsize : base + size ≤ starts.length)
    (hlow : base < starts.countP (· ≤ offset)) (hhigh : starts.countP (· ≤ offset) ≤ base + size) :
    searchFrom starts offset base size = .ok (starts.countP (· ≤ offset) - 1) ∨
      searchFrom starts offset base size = .error (starts.countP (· ≤ offset)) := by
  fun_induction searchFrom starts offset base size with
  | case1 base size hmore half middle ih =>
    -- the entry in the middle tells in which half the count of entries up to the offset lies
    have hmiddle := getD_le_iff offset hsorted (show middle < starts.length by omega)
    split_ifs at ih ⊢ with hgreater
    · exact ih (by omega) hlow (by omega)
    · exact ih (by omega) (by omega) (by omega)
  | case2 base size hone start hfound =>
    left
    congr
    omega
  | case3 base size hone start hmissing =>
    have hle := (getD_le_iff offset hsorted (by omega)).2 hlow
    right
    rw [if_pos (lt_of_le_of_ne hle hmissing)]
    congr
    omega

/-- The line of an offset counts the line starts up to there. -/
theorem lineAt_eq_countP (source : List Char) (offset : Nat) :
    (ofText source).lineAt offset = (ofText source).starts.countP (· ≤ offset) := by
  have hpos : 0 < (ofText source).starts.countP (· ≤ offset) :=
    List.countP_pos_iff.2 ⟨0, List.mem_cons_self, by simp⟩
  have hsearch := searchFrom_eq (pairwise_starts source) (Nat.le_of_eq (Nat.zero_add _)) hpos
    (List.countP_le_length.trans (Nat.le_of_eq (Nat.zero_add _).symm))
  unfold lineAt search
  rw [if_neg (by simp [ofText])]
  rcases hsearch with hfound | hmissing
  · rw [hfound]
    exact Nat.sub_add_cancel hpos
  · rw [hmissing]
    exact Nat.sub_add_cancel hpos

/-! ### Positions -/

/-- The lines behind whole lines and a part of another start behind that part. -/
theorem starts_ofText (hcurrent : ∀ ch ∈ current, isLineBreak ch = false)
    (hcut : ¬Joins (lines ++ current) rest) :
    (ofText (lines ++ (current ++ rest))).starts =
      0 :: startsFrom 0 lines ++ startsFrom (byteLength (lines ++ current)) rest := by
  have hpart : ¬Joins lines current := Text.not_joins_of_right hcurrent
  rw [ofText, ← List.append_assoc, startsFrom_append 0 hcut, startsFrom_append 0 hpart,
    startsFrom_eq_nil _ hcurrent, List.append_nil, Nat.zero_add]
  rfl

/-- The line of an offset counts the lines that start up to there. -/
theorem lineAt_of_starts {source : List Char} {offset : Nat} {front back : List Nat}
    (hstarts : (ofText source).starts = front ++ back) (hfront : ∀ start ∈ front, start ≤ offset)
    (hback : ∀ start ∈ back, offset < start) : (ofText source).lineAt offset = front.length := by
  rw [lineAt_eq_countP, hstarts, List.countP_append,
    List.countP_eq_length.2 (by simpa using hfront),
    List.countP_eq_zero.2 (by simpa using hback), Nat.add_zero]

/-- The line of a cut counts the line breaks in front of it. -/
theorem lineAt_append (hcut : ¬Joins text rest) :
    (ofText (text ++ rest)).lineAt (byteLength text) = (startsFrom 0 text).length + 1 := by
  have hstarts : (ofText (text ++ rest)).starts =
      (0 :: startsFrom 0 text) ++ startsFrom (byteLength text) rest := by
    rw [ofText, startsFrom_append 0 hcut, Nat.zero_add]
    rfl
  refine lineAt_of_starts hstarts (List.forall_mem_cons.2 ⟨Nat.zero_le _, fun start hstart => ?_⟩)
    fun start hstart => (bounds_of_mem_startsFrom hstart).1
  exact (bounds_of_mem_startsFrom hstart).2.trans_eq (Nat.zero_add _)

theorem lineAt_ofText (hcurrent : ∀ ch ∈ current, isLineBreak ch = false)
    (hcut : ¬Joins (lines ++ current) rest) :
    (ofText (lines ++ (current ++ rest))).lineAt (byteLength (lines ++ current)) =
      (startsFrom 0 lines).length + 1 := by
  rw [← List.append_assoc, lineAt_append hcut,
    startsFrom_append 0 (Text.not_joins_of_right hcurrent), startsFrom_eq_nil _ hcurrent,
    List.append_nil]

theorem lineStart?_ofText (hlines : lines = [] ∨ EndsLine lines)
    (hcurrent : ∀ ch ∈ current, isLineBreak ch = false) (hcut : ¬Joins (lines ++ current) rest) :
    (ofText (lines ++ (current ++ rest))).lineStart? ((startsFrom 0 lines).length + 1) =
      some (byteLength lines) := by
  have hlast : (0 :: startsFrom 0 lines).getLast? = some (byteLength lines) := by
    rcases hlines with rfl | hlines
    · rfl
    · rw [List.getLast?_cons, getLast?_startsFrom 0 hlines, Nat.zero_add]
      rfl
  rw [lineStart?, if_neg (Nat.succ_ne_zero _), starts_ofText hcurrent hcut, Nat.add_sub_cancel,
    List.getElem?_append_left (by simp), ← hlast, List.getLast?_eq_getElem?]
  rfl

/-- Behind whole lines and a part of a line, the line counts the line breaks and the column the
characters of that part. -/
theorem position_ofText (hlines : lines = [] ∨ EndsLine lines)
    (hcurrent : ∀ ch ∈ current, isLineBreak ch = false) (hcut : ¬Joins (lines ++ current) rest) :
    (ofText (lines ++ (current ++ rest))).position (lines ++ (current ++ rest))
        (byteLength (lines ++ current)) =
      ⟨byteLength (lines ++ current), (startsFrom 0 lines).length + 1, current.length + 1⟩ := by
  have hmin : min (byteLength (lines ++ current)) (byteLength (lines ++ (current ++ rest))) =
      byteLength lines + byteLength current := by
    simp only [Text.byteLength_append]
    omega
  simp only [position, lineAt_ofText hcurrent hcut, lineStart?_ofText hlines hcurrent hcut,
    Option.getD_some, hmin, Text.slice?_append]

end Localization.LineTable
