import CuttingPlane.Json.Encode
import CuttingPlane.Json.Decode
import CuttingPlane.Proofs.Tokens

/-!
# Lists and records as they are written

A list is read back if its items are, a record if the values of its members fill a draft of it one after the
other. Both hold at any depth and in either written form, wherever the text stands.
-/

namespace CuttingPlane.Json

/-- A text that is read as `x` behind blanks and before all that cannot go on a number. -/
def Reads {β : Type} (item : Reader β) (text : List Char) (x : β) : Prop :=
  ∀ rest, EndsNumber rest → ∀ cs, skipBlanks cs = skipBlanks (text ++ rest) → item cs = .ok (x, rest)

/-- A value that is read as `x` however it is written. -/
def ReadsBack {β : Type} (item : Reader β) (form : Json) (x : β) : Prop :=
  ∀ style depth, Reads item (write style depth form) x

/-- A value whose text begins neither like the end of a list nor like `null`. -/
def Begins (form : Json) : Prop :=
  ∀ style depth, ∃ c cs, skipBlanks (write style depth form) = c :: cs ∧ c ≠ ']' ∧ c ≠ 'n'

variable {β δ : Type} {item : Reader β} {x : β} {xs : List β} {toForm : β → Json} {form : Json}
variable {style : Style} {depth : ℕ} {cs lead rest tail bound : List Char}

/-! ### Numbers and texts -/

theorem reads_number {use : Number → Option β} {text : List Char} (h : readNumberAs use text = .ok (x, [])) :
    Reads (readNumberAs use) text x := by
  intro rest hrest cs hcs
  have hsame : readNumberAs use cs = readNumberAs use (text ++ rest) := by
    unfold readNumberAs
    rw [hcs]
  rw [hsame]
  exact hrest.readNumberAs_append h

theorem begins_number {use : Number → Option β}
    (h : ∀ style depth, readNumberAs use (write style depth form) = .ok (x, [])) : Begins form := by
  intro style depth
  obtain ⟨c, cs, hskip, hfront, -⟩ := readNumberAs_eq_ok_iff.1 (h style depth)
  refine ⟨c, cs, hskip, ?_, ?_⟩ <;> rintro rfl <;> simp [Char.isDigit] at hfront

theorem quote_append (s : String) (rest : List Char) :
    quote s ++ rest = '"' :: (s.toList.flatMap escape ++ '"' :: rest) := by
  simp [quote]

theorem skipBlanks_quote (s : String) (rest : List Char) :
    skipBlanks (quote s ++ rest) = '"' :: (s.toList.flatMap escape ++ '"' :: rest) := by
  rw [quote_append]
  rfl

theorem readsBack_text (s : String) : ReadsBack readText (.text s) s := by
  intro style depth rest _ cs hcs
  rw [write, skipBlanks_quote] at hcs
  rw [readText, hcs]
  exact readQuoted_escape s rest

theorem begins_text (s : String) : Begins (.text s) := by
  intro style depth
  refine ⟨'"', s.toList.flatMap escape ++ ['"'], ?_, by decide, by decide⟩
  simpa [write] using skipBlanks_quote s []

theorem readsBack_null : ReadsBack (readOptional item) .null none := by
  intro style depth rest _ cs hcs
  have hnull : skipBlanks cs = 'n' :: 'u' :: 'l' :: 'l' :: rest := hcs
  rw [readOptional, hnull]
  rfl

theorem ReadsBack.optional (h : ReadsBack item form x) (hbegins : Begins form) :
    ReadsBack (readOptional item) form (some x) := by
  intro style depth rest hrest cs hcs
  obtain ⟨c, ds, hskip, -, hword⟩ := hbegins style depth
  have hvalue := h style depth rest hrest
  rw [skipBlanks_append_of_cons hskip] at hcs hvalue
  have hitem := hvalue (c :: (ds ++ rest)) (skipBlanks_cons (isBlank_of_skipBlanks hskip) _)
  rw [readOptional, hcs]
  split
  · rename_i heq
    exact absurd (List.cons.inj heq).1 hword
  · rw [hitem]
    rfl

theorem Begins.length_pos (h : Begins form) (style : Style) (depth : ℕ) :
    0 < (write style depth form).length := by
  obtain ⟨c, cs, hskip, -⟩ := h style depth
  rw [List.length_pos_iff]
  intro hnil
  rw [hnil] at hskip
  cases hskip

/-! ### What stands between items -/

theorem isBlank_of_mem_newline {c : Char} (h : c ∈ style.newline depth) : isBlank c = true := by
  cases style with
  | compact => cases h
  | pretty =>
    rcases List.mem_cons.1 h with rfl | h
    · rfl
    · rw [List.eq_of_mem_replicate h]
      rfl

theorem nextItem_end {close : Char} {first : Bool} (h : skipBlanks cs = close :: rest) :
    nextItem close first cs = .ok none := by
  rw [nextItem, h]
  exact if_pos rfl

theorem nextItem_first {close c : Char} (h : skipBlanks cs = c :: rest) (hc : c ≠ close) :
    nextItem close true cs = .ok (some (c :: rest)) := by
  rw [nextItem, h]
  exact (if_neg hc).trans (if_pos rfl)

theorem nextItem_comma {close c : Char} (h : skipBlanks cs = c :: rest) (hc : c ≠ close) (hclose : ',' ≠ close) :
    nextItem close false (',' :: cs) = .ok (some (c :: rest)) := by
  rw [nextItem, show skipBlanks (',' :: cs) = ',' :: cs from rfl]
  simp only [if_neg hclose, Bool.false_eq_true, if_false, if_true, h, if_neg hc]

theorem expectChar_eq {wanted : Char} (h : skipBlanks cs = wanted :: rest) : expectChar wanted cs = .ok rest := by
  rw [expectChar, h]
  exact if_pos rfl

/-- The end of a list or a record, and what comes after it. -/
structure Closes (close : Char) (tail rest : List Char) : Prop where
  skip : skipBlanks tail = close :: rest
  ends : EndsNumber tail

theorem closes_newline {close : Char} (hclose : isBlank close = false)
    (hends : ∀ rest, EndsNumber (close :: rest)) (style : Style) (depth : ℕ) (rest : List Char) :
    Closes close (style.newline depth ++ close :: rest) rest where
  skip := by
    rw [skipBlanks_append fun c hc => isBlank_of_mem_newline hc, skipBlanks_cons hclose]
  ends := by
    cases style with
    | compact => exact hends rest
    | pretty =>
      intro c hc
      rw [← Option.some.inj hc]
      decide

theorem closes_square (style : Style) (depth : ℕ) (rest : List Char) :
    Closes ']' (style.newline depth ++ ']' :: rest) rest :=
  closes_newline (by decide) (fun _ c hc => Option.some.inj hc ▸ by decide) style depth rest

theorem closes_curly (style : Style) (depth : ℕ) (rest : List Char) :
    Closes '\x7d' (style.newline depth ++ '\x7d' :: rest) rest :=
  closes_newline (by decide) (fun _ c hc => Option.some.inj hc ▸ by decide) style depth rest

/-! ### Lists -/

theorem EndsNumber.writeItems (h : EndsNumber tail) (style : Style) (depth : ℕ) (forms : List Json) :
    EndsNumber (writeItems style depth forms ++ tail) := by
  cases forms with
  | nil => exact h
  | cons form forms =>
    intro c hc
    rw [← Option.some.inj hc]
    decide

/-- Behind a new line an item is found, and it is read up to what follows it. -/
theorem exists_item (h : ReadsBack item form x) (hbegins : Begins form) (style : Style) (depth : ℕ)
    (hrest : EndsNumber rest) : ∃ c cs,
      skipBlanks (style.newline depth ++ (write style depth form ++ rest)) = c :: cs ∧ c ≠ ']' ∧
        item (c :: cs) = .ok (x, rest) := by
  obtain ⟨c, ds, hskip, hclose, -⟩ := hbegins style depth
  have htext := skipBlanks_append_of_cons hskip rest
  have hblank := isBlank_of_skipBlanks hskip
  refine ⟨c, ds ++ rest, ?_, hclose, h style depth rest hrest _ ?_⟩
  · rw [skipBlanks_append fun c hc => isBlank_of_mem_newline hc, htext]
  · rw [htext, skipBlanks_cons hblank]

theorem writeItems_cons_append (style : Style) (depth : ℕ) (form : Json) (forms : List Json) (tail : List Char) :
    writeItems style depth (form :: forms) ++ tail =
      ',' :: (style.newline depth ++ (write style depth form ++ (writeItems style depth forms ++ tail))) := by
  simp [writeItems]

theorem readItems_writeItems (h : ∀ x ∈ xs, ReadsBack item (toForm x) x ∧ Begins (toForm x)) (style : Style)
    (depth : ℕ) (htail : Closes ']' tail rest) (hbound : xs.length < bound.length) :
    readItems item bound false (writeItems style depth (xs.map toForm) ++ tail) = .ok (xs, rest) := by
  induction xs generalizing bound with
  | nil =>
    obtain ⟨b, bound, rfl, -⟩ := exists_cons_of_lt_length hbound
    rw [List.map_nil, writeItems, List.nil_append, readItems, nextItem_end htail.skip]
    change (expectChar ']' tail >>= _) = _
    rw [expectChar_eq htail.skip]
    rfl
  | cons x xs ih =>
    obtain ⟨b, bound, rfl, hless⟩ := exists_cons_of_lt_length hbound
    obtain ⟨hx, hbegins⟩ := h x (List.mem_cons_self ..)
    have hmore := ih (fun x hx => h x (List.mem_cons_of_mem _ hx)) hless
    obtain ⟨c, cs, hskip, hclose, hitem⟩ :=
      exists_item hx hbegins style depth (htail.ends.writeItems style depth (xs.map toForm))
    rw [List.map_cons, writeItems_cons_append, readItems, nextItem_comma hskip hclose (by decide)]
    change (item (c :: cs) >>= _) = _
    rw [hitem]
    change (readItems item bound false _ >>= _) = _
    rw [hmore]
    rfl

theorem length_le_length_writeItems (style : Style) (depth : ℕ) (forms : List Json) :
    forms.length ≤ (writeItems style depth forms).length := by
  induction forms with
  | nil => exact Nat.zero_le _
  | cons form forms ih =>
    have hwrite : writeItems style depth (form :: forms) = ',' :: (style.newline depth ++
        (write style depth form ++ writeItems style depth forms)) := by
      simpa using writeItems_cons_append style depth form forms []
    rw [hwrite, List.length_cons, List.length_cons, List.length_append, List.length_append]
    omega

/-- Behind the opening bracket of a list its first item is found and read, in a text longer than the list. -/
theorem exists_first_item (h : ReadsBack item form x) (hbegins : Begins form) (style : Style) (depth : ℕ)
    (forms : List Json) (rest : List Char) : ∃ b bound c cs,
      skipBlanks (write style depth (.list (form :: forms)) ++ rest) = '[' :: b :: bound ∧
        nextItem ']' true (b :: bound) = .ok (some (c :: cs)) ∧
        item (c :: cs) = .ok (x, writeItems style (depth + 1) forms ++ (style.newline depth ++ ']' :: rest)) ∧
        forms.length < bound.length := by
  have htail := closes_square style depth rest
  obtain ⟨c, cs, hskip, hclose, hitem⟩ :=
    exists_item h hbegins style (depth + 1) (htail.ends.writeItems style (depth + 1) forms)
  generalize hbody : style.newline (depth + 1) ++ (write style (depth + 1) form ++
    (writeItems style (depth + 1) forms ++ (style.newline depth ++ ']' :: rest))) = body at hskip
  have hlength : forms.length + 1 < body.length := by
    have hwrite := hbegins.length_pos style (depth + 1)
    have hmore := length_le_length_writeItems style (depth + 1) forms
    simp only [← hbody, List.length_append, List.length_cons]
    omega
  obtain ⟨b, bound, rfl, hless⟩ := exists_cons_of_lt_length hlength
  refine ⟨b, bound, c, cs, ?_, nextItem_first hskip hclose, hitem, hless⟩
  rw [write, ← hbody]
  simp [skipBlanks, isBlank]

/-- A list of values that are read back is read back. -/
theorem ReadsBack.list (h : ∀ x ∈ xs, ReadsBack item (toForm x) x ∧ Begins (toForm x)) :
    ReadsBack (readList item) (.listOf toForm xs) xs := by
  intro style depth rest _ cs hcs
  cases xs with
  | nil =>
    have hempty : skipBlanks cs = '[' :: ']' :: rest := hcs
    rw [readList, hempty]
    change readItems item (']' :: rest) true (']' :: rest) = _
    rw [readItems, nextItem_end (skipBlanks_cons (by decide) rest)]
    rfl
  | cons x xs =>
    obtain ⟨hx, hbegins⟩ := h x (List.mem_cons_self ..)
    obtain ⟨b, bound, c, ds, hopen, hnext, hitem, hlength⟩ :=
      exists_first_item hx hbegins style depth (xs.map toForm) rest
    rw [List.length_map] at hlength
    have hlist : skipBlanks cs = '[' :: b :: bound := hcs.trans hopen
    rw [readList, hlist]
    change readItems item (b :: bound) true (b :: bound) = _
    rw [readItems, hnext]
    change (item (c :: ds) >>= _) = _
    rw [hitem]
    change (readItems item bound false _ >>= _) = _
    rw [readItems_writeItems (fun x hx => h x (List.mem_cons_of_mem _ hx)) style (depth + 1)
      (closes_square style depth rest) hlength]
    rfl

theorem begins_list (forms : List Json) : Begins (.list forms) := by
  intro style depth
  cases forms with
  | nil => exact ⟨'[', [']'], rfl, by decide, by decide⟩
  | cons form forms =>
    refine ⟨'[', style.newline (depth + 1) ++ write style (depth + 1) form ++
      writeItems style (depth + 1) forms ++ style.newline depth ++ [']'], ?_, by decide, by decide⟩
    rw [write]
    exact skipBlanks_cons (by decide) _

/-! ### Records -/

/-- Members whose values are read one after the other into a draft, each into a slot of its name that is
still empty. -/
inductive Fills (slots : List (Slot δ)) : δ → List (String × Json) → δ → Prop
  | nil (draft : δ) : Fills slots draft [] draft
  | cons {slot : Slot δ} {name : String} {form : Json} {members : List (String × Json)} {d d' d'' : δ}
      (found : (slots.find? fun slot => slot.name == name) = some slot) (empty : slot.isFilled d = false)
      (read : ReadsBack (slot.fill d) form d') (rest : Fills slots d' members d'') :
      Fills slots d ((name, form) :: members) d''

theorem Slot.fill_of {name : String} {get : δ → Option β} {put : δ → β → δ} (h : ReadsBack item form x)
    (d : δ) : ReadsBack ((Slot.of name item get put).fill d) form (put d x) := by
  intro style depth rest hrest cs hcs
  change (item cs >>= _) = _
  rw [h style depth rest hrest cs hcs]
  rfl

variable {slots : List (Slot δ)} {slot : Slot δ} {name : String} {members : List (String × Json)} {d d' d'' : δ}

theorem EndsNumber.writeMembers (h : EndsNumber tail) (style : Style) (depth : ℕ) (members : List (String × Json)) :
    EndsNumber (writeMembers style depth members ++ tail) := by
  cases members with
  | nil => exact h
  | cons member members =>
    intro c hc
    rw [← Option.some.inj hc]
    decide

theorem skipBlanks_colon (style : Style) (cs : List Char) :
    ∃ lead, style.colon ++ cs = ':' :: (lead ++ cs) ∧ ∀ c ∈ lead, isBlank c = true := by
  cases style with
  | compact => exact ⟨[], rfl, nofun⟩
  | pretty => exact ⟨[' '], rfl, by simp [isBlank]⟩

theorem expectChar_cons {wanted : Char} (h : isBlank wanted = false) (cs : List Char) :
    expectChar wanted (wanted :: cs) = .ok cs := expectChar_eq (skipBlanks_cons h cs)

/-- A member is read into its slot up to what follows it. -/
theorem readMember_write (found : (slots.find? fun slot => slot.name == name) = some slot)
    (empty : slot.isFilled d = false) (read : ReadsBack (slot.fill d) form d') (style : Style) (depth : ℕ)
    (hrest : EndsNumber rest) :
    readMember slots name d (style.colon ++ (write style depth form ++ rest)) = .ok (d', rest) := by
  obtain ⟨lead, hcolon, hlead⟩ := skipBlanks_colon style (write style depth form ++ rest)
  rw [readMember, found, hcolon]
  simp only [empty, Bool.false_eq_true, if_false, expectChar_cons (show isBlank ':' = false by decide)]
  exact read style depth rest hrest _ (skipBlanks_append hlead _)

/-- One member at the front is read into the draft, and the others are left. -/
theorem readMembers_cons (found : (slots.find? fun slot => slot.name == name) = some slot)
    (empty : slot.isFilled d = false) (read : ReadsBack (slot.fill d) form d') (style : Style) (depth : ℕ)
    (hrest : EndsNumber rest) {first : Bool} (b : Char) (bound : List Char)
    (hnext : nextItem '\x7d' first cs =
      .ok (some (quote name ++ (style.colon ++ (write style depth form ++ rest))))) :
    readMembers slots (b :: bound) first d cs = readMembers slots bound false d' rest := by
  rw [readMembers, hnext, quote_append]
  simp only [bind, Except.bind, expectChar_cons (show isBlank '"' = false by decide), readQuoted_escape]
  rw [readMember_write found empty read style depth hrest]

theorem writeMembers_cons_append (style : Style) (depth : ℕ) (name : String) (form : Json)
    (members : List (String × Json)) (tail : List Char) :
    writeMembers style depth ((name, form) :: members) ++ tail = ',' :: (style.newline depth ++
      (quote name ++ (style.colon ++ (write style depth form ++ (writeMembers style depth members ++ tail))))) := by
  simp [writeMembers]

theorem skipBlanks_newline_quote (style : Style) (depth : ℕ) (name : String) (rest : List Char) :
    skipBlanks (style.newline depth ++ (quote name ++ rest)) =
      '"' :: (name.toList.flatMap escape ++ '"' :: rest) := by
  rw [skipBlanks_append fun c hc => isBlank_of_mem_newline hc, skipBlanks_quote]

theorem readMembers_writeMembers (h : Fills slots d members d') (style : Style) (depth : ℕ)
    (htail : Closes '\x7d' tail rest) (hbound : members.length < bound.length) :
    readMembers slots bound false d (writeMembers style depth members ++ tail) = .ok (d', tail) := by
  induction h generalizing bound with
  | nil d =>
    obtain ⟨b, bound, rfl, -⟩ := exists_cons_of_lt_length hbound
    rw [writeMembers, List.nil_append, readMembers, nextItem_end htail.skip]
    rfl
  | @cons slot name form members d d' d'' found empty read _ ih =>
    obtain ⟨b, bound, rfl, hless⟩ := exists_cons_of_lt_length hbound
    rw [writeMembers_cons_append]
    have hnext := nextItem_comma (skipBlanks_newline_quote style depth name
      (style.colon ++ (write style depth form ++ (writeMembers style depth members ++ tail))))
      (show '"' ≠ '\x7d' by decide) (by decide)
    rw [← quote_append] at hnext
    rw [readMembers_cons found empty read style depth (htail.ends.writeMembers style depth members) b bound hnext]
    exact ih hless

theorem length_le_length_writeMembers (style : Style) (depth : ℕ) (members : List (String × Json)) :
    members.length ≤ (writeMembers style depth members).length := by
  induction members with
  | nil => exact Nat.zero_le _
  | cons member members ih =>
    obtain ⟨name, form⟩ := member
    have hwrite := writeMembers_cons_append style depth name form members []
    rw [List.append_nil, List.append_nil] at hwrite
    rw [hwrite]
    simp only [List.length_cons, List.length_append]
    omega

/-- Behind the opening bracket of a record its first member is found, in a text longer than the list of members. -/
theorem exists_member (style : Style) (depth : ℕ) (name : String) (form : Json) (members : List (String × Json))
    (rest : List Char) : ∃ b bound,
      skipBlanks (write style depth (.record ((name, form) :: members)) ++ rest) = '\x7b' :: b :: bound ∧
        nextItem '\x7d' true (b :: bound) = .ok (some (quote name ++ (style.colon ++
          (write style (depth + 1) form ++ (writeMembers style (depth + 1) members ++
            (style.newline depth ++ '\x7d' :: rest)))))) ∧ members.length < bound.length := by
  generalize hafter : style.colon ++ (write style (depth + 1) form ++ (writeMembers style (depth + 1) members ++
    (style.newline depth ++ '\x7d' :: rest))) = after
  have hnext := nextItem_first (skipBlanks_newline_quote style (depth + 1) name after)
    (show '"' ≠ '\x7d' by decide)
  generalize hbody : style.newline (depth + 1) ++ (quote name ++ after) = body at hnext
  have hlength : members.length + 1 < body.length := by
    have hmore := length_le_length_writeMembers style (depth + 1) members
    simp only [← hbody, ← hafter, quote, List.length_append, List.length_cons]
    omega
  obtain ⟨b, bound, rfl, hless⟩ := exists_cons_of_lt_length hlength
  refine ⟨b, bound, ?_, by rw [hnext, quote_append], hless⟩
  rw [write, ← hbody, ← hafter]
  simp [skipBlanks, isBlank]

/-- A record is read back if its members fill a draft of it. -/
theorem ReadsBack.record {format : RecordFormat δ β} (h : Fills format.slots format.start members d)
    (hx : format.finish d = some x) : ReadsBack (readRecord format) (.record members) x := by
  intro style depth rest _ cs hcs
  have hread : ∀ body tail, readMembers format.slots body true format.start body = .ok (d, tail) →
      Closes '\x7d' tail rest → skipBlanks cs = '\x7b' :: body → readRecord format cs = .ok (x, rest) := by
    intro body tail hmembers htail hopen
    rw [readRecord, hopen]
    change readNamed format body = _
    simp only [readNamed, finishRecord, bind, Except.bind, hmembers, hx, expectChar_eq htail.skip]
  cases h with
  | nil =>
    refine hread ('\x7d' :: rest) ('\x7d' :: rest) ?_ (closes_curly .compact 0 rest) hcs
    rw [readMembers, nextItem_end (skipBlanks_cons (by decide) rest)]
    rfl
  | @cons slot name form members _ d' _ found empty read others =>
    have htail := closes_curly style depth rest
    obtain ⟨b, bound, hopen, hnext, hlength⟩ := exists_member style depth name form members rest
    refine hread (b :: bound) _ ?_ htail (hcs.trans hopen)
    rw [readMembers_cons found empty read style (depth + 1) (htail.ends.writeMembers style (depth + 1) members) b
      bound hnext]
    exact readMembers_writeMembers others style (depth + 1) htail hlength

theorem begins_record (members : List (String × Json)) : Begins (.record members) := by
  intro style depth
  cases members with
  | nil => exact ⟨'\x7b', ['\x7d'], rfl, by decide, by decide⟩
  | cons member members =>
    obtain ⟨name, form⟩ := member
    refine ⟨'\x7b', style.newline (depth + 1) ++ quote name ++ style.colon ++ write style (depth + 1) form ++
      writeMembers style (depth + 1) members ++ style.newline depth ++ ['\x7d'], ?_, by decide, by decide⟩
    rw [write]
    exact skipBlanks_cons (by decide) _

/-! ### Records as lists -/

/-- Values that are read one after the other into a draft, each into the next slot. -/
inductive FillsInOrder : List (Slot δ) → δ → List Json → δ → Prop
  | nil (draft : δ) : FillsInOrder [] draft [] draft
  | cons {slot : Slot δ} {slots : List (Slot δ)} {form : Json} {forms : List Json} {d d' d'' : δ}
      (read : ReadsBack (slot.fill d) form d') (begins : Begins form) (rest : FillsInOrder slots d' forms d'') :
      FillsInOrder (slot :: slots) d (form :: forms) d''

variable {forms : List Json}

theorem readInOrder_writeItems (h : FillsInOrder slots d forms d') (style : Style) (depth : ℕ)
    (htail : Closes ']' tail rest) :
    readInOrder slots false d (writeItems style depth forms ++ tail) = .ok (d', tail) := by
  induction h with
  | nil => rfl
  | @cons slot slots form forms d d' d'' read begins _ ih =>
    obtain ⟨c, cs, hskip, hclose, hitem⟩ :=
      exists_item read begins style depth (htail.ends.writeItems style depth forms)
    rw [writeItems_cons_append, readInOrder, nextItem_comma hskip hclose (by decide)]
    simp only [bind, Except.bind, hitem, ih]

/-- A record that is written as a list is read back if its values fill a draft of it. -/
theorem ReadsBack.tuple {format : RecordFormat δ β} (h : FillsInOrder format.slots format.start forms d)
    (hx : format.finish d = some x) : ReadsBack (readTuple format) (.list forms) x := by
  intro style depth rest _ cs hcs
  have hread : ∀ body tail, readInOrder format.slots true format.start body = .ok (d, tail) →
      Closes ']' tail rest → skipBlanks cs = '[' :: body → readTuple format cs = .ok (x, rest) := by
    intro body tail hitems htail hopen
    rw [readTuple, hopen]
    change readPositional format body = _
    simp only [readPositional, finishRecord, bind, Except.bind, hitems, hx, expectChar_eq htail.skip]
  generalize format.slots = slots at h hread
  cases h with
  | nil => exact hread (']' :: rest) (']' :: rest) rfl (closes_square .compact 0 rest) hcs
  | @cons slot slots form forms _ d' _ read begins others =>
    have htail := closes_square style depth rest
    obtain ⟨b, bound, c, ds, hopen, hnext, hitem, -⟩ := exists_first_item read begins style depth forms rest
    refine hread (b :: bound) _ ?_ htail (hcs.trans hopen)
    rw [readInOrder, hnext]
    simp only [bind, Except.bind, hitem, readInOrder_writeItems others style (depth + 1) htail]

/-! ### Documents -/

theorem endsNumber_nil : EndsNumber [] := nofun

/-- What is read back anywhere is read back as a text of its own. -/
theorem ReadsBack.document (h : ReadsBack item form x) (style : Style) :
    readDocument item (form.render style) = .ok x := by
  have htext := h style 0 [] endsNumber_nil (write style 0 form) (by rw [List.append_nil])
  rw [readDocument, render, String.toList_ofList, htext]
  rfl

end CuttingPlane.Json
