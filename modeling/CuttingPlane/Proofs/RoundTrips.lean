import CuttingPlane.Proofs.Documents

/-!
# What is written is read back

Snapshots, outcomes, solutions, options, problems, requests and plans are read back from their text, in
either written form. The texts in them are any; of their numbers the doubles have to be read back.
-/

namespace CuttingPlane

open Json

/-- A value whose natural numbers and lists fit in 64 bits and whose doubles are finite and read back from the
way they are written. That leaves out finite doubles too, about three in ten of all of them: where the digits
do not fit in 53 bits or the power of ten is above 22, a reading rounds more than once. -/
inductive Json.Faithful : Json → Prop
  | null : Faithful .null
  | boolean (b : Bool) : Faithful (.boolean b)
  | natural {n : ℕ} (bounded : n < 2 ^ 64) : Faithful (.natural n)
  | real {x : Float} (finite : Scalar.isFinite x = true) (back : readReal (writeReal x) = .ok (x, [])) :
      Faithful (.real x)
  | text (s : String) : Faithful (.text s)
  | list {items : List Json} (bounded : items.length < 2 ^ 64) (each : ∀ item ∈ items, Faithful item) :
      Faithful (.list items)
  | record {members : List (String × Json)} (each : ∀ member ∈ members, Faithful member.2) :
      Faithful (.record members)

namespace Json

variable {β : Type} {item : Reader β} {toForm : β → Json} {xs : List β} {x : Float} {n : ℕ}

@[simp] theorem faithful_null : Faithful .null := .null

@[simp] theorem faithful_natural : Faithful (.natural n) ↔ n < 2 ^ 64 :=
  ⟨fun | .natural bounded => bounded, .natural⟩

theorem faithful_real :
    Faithful (.real x) ↔ Scalar.isFinite x = true ∧ readReal (writeReal x) = .ok (x, []) :=
  ⟨fun | .real finite back => ⟨finite, back⟩, fun h => .real h.1 h.2⟩

-- The power of ten in this one is not a double.
example : Scalar.isFinite (1e-23 : Float) = true ∧ readReal (writeReal 1e-23) ≠ .ok (1e-23, []) := by
  decide +kernel

@[simp] theorem faithful_text (s : String) : Faithful (.text s) := .text s

@[simp] theorem faithful_list {items : List Json} :
    Faithful (.list items) ↔ items.length < 2 ^ 64 ∧ ∀ item ∈ items, Faithful item :=
  ⟨fun | .list bounded each => ⟨bounded, each⟩, fun h => .list h.1 h.2⟩

@[simp] theorem faithful_record {members : List (String × Json)} :
    Faithful (.record members) ↔ ∀ member ∈ members, Faithful member.2 :=
  ⟨fun | .record each => each, .record⟩

theorem Faithful.of_mem (h : Faithful (.listOf toForm xs)) {x : β} (hx : x ∈ xs) : Faithful (toForm x) :=
  (faithful_list.1 h).2 (toForm x) (List.mem_map_of_mem hx)

theorem Faithful.of_some {o : Option β} (h : Faithful (.optional toForm o)) : ∀ x ∈ o, Faithful (toForm x) := by
  rintro x rfl
  exact h

/-! ### Numbers and lists of them -/

theorem Faithful.readsBack_natural (h : Faithful (.natural n)) : ReadsBack readNat (.natural n) n :=
  fun _ _ => reads_number (readNat_digitChars (faithful_natural.1 h))

theorem Faithful.begins_natural (h : Faithful (.natural n)) : Begins (.natural n) :=
  begins_number fun _ _ => readNat_digitChars (faithful_natural.1 h)

theorem Faithful.readsBack_real (h : Faithful (.real x)) : ReadsBack readReal (.real x) x :=
  fun _ _ => reads_number (faithful_real.1 h).2

theorem Faithful.begins_real (h : Faithful (.real x)) : Begins (.real x) :=
  begins_number fun _ _ => (faithful_real.1 h).2

theorem Faithful.readsBack_reals {xs : List Float} (h : Faithful (.reals xs)) :
    ReadsBack readReals (.reals xs) xs :=
  ReadsBack.list fun _ hx => ⟨(h.of_mem hx).readsBack_real, (h.of_mem hx).begins_real⟩

theorem Faithful.readsBack_rows {rows : List (List Float)} (h : Faithful (.listOf .reals rows)) :
    ReadsBack (readList readReals) (.listOf .reals rows) rows :=
  ReadsBack.list fun _ hrow => ⟨(h.of_mem hrow).readsBack_reals, begins_list _⟩

/-! ### Texts and what may be missing -/

theorem readsBack_texts (names : List String) : ReadsBack (readList readText) (.listOf .text names) names :=
  ReadsBack.list fun name _ => ⟨readsBack_text name, begins_text name⟩

theorem readsBack_optional {o : Option β} (h : ∀ x ∈ o, ReadsBack item (toForm x) x ∧ Begins (toForm x)) :
    ReadsBack (readOptional item) (.optional toForm o) o := by
  cases o with
  | none => exact readsBack_null
  | some x =>
    obtain ⟨hx, hbegins⟩ := h x rfl
    exact hx.optional hbegins

end Json

/-! ### Grids and snapshots -/

theorem Grid.ofColumns?_toList {α : Type} (g : Grid α) : ofColumns? g.entries.toList g.height g.width = some g := by
  rw [ofColumns?, dif_pos g.entries.length_toList]
  rfl

theorem Grid.readsBack {g : Grid Float} (h : g.toJson.Faithful) : ReadsBack Grid.read g.toJson g := by
  have each := (faithful_list.1 h).2
  simp only [List.forall_mem_cons] at each
  obtain ⟨hentries, hheight, hwidth, -⟩ := each
  have hsize : g.height * g.width < 2 ^ 64 := by
    have hlength := (faithful_list.1 hentries).1
    rwa [List.length_map, Vector.length_toList] at hlength
  have hparts : ReadsBack (readTuple Grid.format) g.toJson (g.entries.toList, g.height, g.width) :=
    ReadsBack.tuple (.cons (Slot.fill_of hentries.readsBack_reals _) (begins_list _)
      (.cons (Slot.fill_of hheight.readsBack_natural _) hheight.begins_natural
        (.cons (Slot.fill_of hwidth.readsBack_natural _) hwidth.begins_natural (.nil _)))) rfl
  intro style depth rest hrest cs hcs
  rw [Grid.read, hparts style depth rest hrest cs hcs]
  change (if Nat.pow 2 64 ≤ g.height * g.width then _ else _) = _
  rw [if_neg (show ¬Nat.pow 2 64 ≤ _ from Nat.not_le.2 hsize), Grid.ofColumns?_toList]

theorem Snapshot.readsBack {s : Snapshot Float} (h : s.toJson.Faithful) : ReadsBack Snapshot.read s.toJson s := by
  have each := faithful_record.1 h
  simp only [List.forall_mem_cons] at each
  obtain ⟨-, hmatrix, -⟩ := each
  exact ReadsBack.record (.cons rfl rfl (Slot.fill_of (readsBack_text s.title) _)
    (.cons rfl rfl (Slot.fill_of (Grid.readsBack hmatrix) _)
      (.cons rfl rfl (Slot.fill_of (readsBack_texts s.basic) _)
        (.cons rfl rfl (Slot.fill_of (readsBack_texts s.nonbasic) _) (.nil _))))) rfl

theorem Snapshot.readsBack_list {trace : List (Snapshot Float)} (h : (Json.listOf Snapshot.toJson trace).Faithful) :
    ReadsBack (readList Snapshot.read) (.listOf Snapshot.toJson trace) trace :=
  ReadsBack.list fun _ hs => ⟨Snapshot.readsBack (h.of_mem hs), begins_record _⟩

/-! ### Outcomes and values by name -/

theorem Outcome.ofName?_name (o : Outcome) : ofName? o.name = some o := by
  cases o <;> decide

theorem Outcome.readsBack (o : Outcome) : ReadsBack Outcome.read o.toJson o := by
  intro style depth rest _ cs hcs
  rw [toJson, write, skipBlanks_quote] at hcs
  rw [Outcome.read, hcs]
  change Outcome.readName _ = _
  simp only [Outcome.readName, bind, Except.bind, readQuoted_escape, Outcome.ofName?_name]

theorem Valuation.place_of_lt {α : Type} {name : String} (x : α) {ps : List (String × α)}
    (h : ∀ p ∈ ps, p.1 < name) : place name x ps = ps ++ [(name, x)] := by
  induction ps with
  | nil => rfl
  | cons p ps ih =>
    have hp : p.1 < name := h p (List.mem_cons_self ..)
    rw [place, if_neg (String.lt_asymm hp), if_neg (String.ne_of_lt hp).symm,
      ih fun q hq => h q (List.mem_cons_of_mem _ hq)]
    rfl

namespace Valuation

/-- A name that comes after all others is put at the end. -/
theorem toList_set_of_lt {α : Type} {v : Valuation α} {name : String} (x : α) (h : ∀ p ∈ v.toList, p.1 < name) :
    (v.set name x).toList = v.toList ++ [(name, x)] := place_of_lt x h

/-- The value of a name as a member. -/
def member (p : String × Float) : String × Json := (p.1, .real p.2)

variable {v w : Valuation Float} {p : String × Float} {ps : List (String × Float)} {style : Style} {depth : ℕ}
variable {cs tail rest bound : List Char}

/-- One value at the front is set, and the others are left. -/
theorem readValues_cons (h : Faithful (.real p.2)) (hrest : EndsNumber rest) {first : Bool} (b : Char)
    (bound : List Char)
    (hnext : nextItem '\x7d' first cs =
      .ok (some (quote p.1 ++ (style.colon ++ (write style depth (.real p.2) ++ rest))))) :
    readValues (b :: bound) first v cs = readValues bound false (v.set p.1 p.2) rest := by
  obtain ⟨lead, hcolon, hlead⟩ := skipBlanks_colon style (write style depth (.real p.2) ++ rest)
  have hvalue := h.readsBack_real style depth rest hrest _ (skipBlanks_append hlead _)
  rw [readValues, hnext, quote_append, hcolon]
  simp only [bind, Except.bind, expectChar_cons (show isBlank '"' = false by decide), readQuoted_escape,
    expectChar_cons (show isBlank ':' = false by decide), hvalue]

/-- Values whose names come after those that are set already are set one after the other. -/
theorem readValues_writeMembers (h : ∀ p ∈ ps, Faithful (.real p.2)) (hw : w.toList = v.toList ++ ps)
    (style : Style) (depth : ℕ) (htail : Closes '\x7d' tail rest) (hbound : ps.length < bound.length) :
    readValues bound false v (writeMembers style depth (ps.map member) ++ tail) = .ok (w, rest) := by
  induction ps generalizing v bound with
  | nil =>
    obtain ⟨b, bound, rfl, -⟩ := exists_cons_of_lt_length hbound
    obtain rfl : w = v := by
      cases w
      cases v
      simpa using hw
    rw [List.map_nil, writeMembers, List.nil_append, readValues, nextItem_end htail.skip]
    simp only [bind, Except.bind, expectChar_eq htail.skip]
  | cons p ps ih =>
    obtain ⟨b, bound, rfl, hless⟩ := exists_cons_of_lt_length hbound
    have hset : w.toList = (v.set p.1 p.2).toList ++ ps := by
      have hascending := w.ascending
      rw [hw, List.pairwise_append] at hascending
      rw [toList_set_of_lt p.2 fun q hq => hascending.2.2 q hq p (List.mem_cons_self ..), hw, List.append_assoc,
        List.singleton_append]
    rw [List.map_cons, member, writeMembers_cons_append]
    have hnext := nextItem_comma (skipBlanks_newline_quote style depth p.1 (style.colon ++
      (write style depth (.real p.2) ++ (writeMembers style depth (ps.map member) ++ tail))))
      (show '"' ≠ '\x7d' by decide) (by decide)
    rw [← quote_append] at hnext
    rw [readValues_cons (h p (List.mem_cons_self ..)) (htail.ends.writeMembers style depth (ps.map member)) b bound
      hnext]
    exact ih (fun q hq => h q (List.mem_cons_of_mem _ hq)) hset hless

theorem readsBack (h : w.toJson.Faithful) : ReadsBack Valuation.read w.toJson w := by
  have each : ∀ p ∈ w.toList, Faithful (.real p.2) :=
    fun p hp => faithful_record.1 h (member p) (List.mem_map_of_mem hp)
  intro style depth rest _ cs hcs
  have hread : ∀ body, readValues body true .empty body = .ok (w, rest) → skipBlanks cs = '\x7b' :: body →
      Valuation.read cs = .ok (w, rest) := by
    intro body hvalues hopen
    rw [Valuation.read, hopen]
    exact hvalues
  have hmembers : w.toJson = .record (w.toList.map member) := rfl
  rw [hmembers] at hcs
  obtain ⟨ps, hascending⟩ := w
  cases ps with
  | nil =>
    refine hread ('\x7d' :: rest) ?_ hcs
    rw [readValues, nextItem_end (skipBlanks_cons (by decide) rest)]
    rfl
  | cons p ps =>
    have htail := closes_curly style depth rest
    obtain ⟨b, bound, hopen, hnext, hlength⟩ := exists_member style depth p.1 (.real p.2) (ps.map member) rest
    rw [List.length_map] at hlength
    refine hread (b :: bound) ?_ (hcs.trans hopen)
    rw [readValues_cons (each p (List.mem_cons_self ..))
      (htail.ends.writeMembers style (depth + 1) (ps.map member)) b bound hnext]
    exact readValues_writeMembers (fun q hq => each q (List.mem_cons_of_mem _ hq)) rfl style (depth + 1) htail
      hlength

end Valuation

/-! ### Solutions and plans -/

theorem Solution.readsBack {s : Solution Float} (h : s.toJson.Faithful) : ReadsBack Solution.read s.toJson s := by
  have each := faithful_record.1 h
  simp only [List.forall_mem_cons] at each
  obtain ⟨-, hvalues, hobjective, hcuts, htrace, -⟩ := each
  have hamount := readsBack_optional fun x hx =>
    ⟨(hobjective.of_some x hx).readsBack_real, (hobjective.of_some x hx).begins_real⟩
  exact ReadsBack.record (.cons rfl rfl (Slot.fill_of (Outcome.readsBack s.outcome) _)
    (.cons rfl rfl (Slot.fill_of (Valuation.readsBack hvalues) _)
      (.cons rfl rfl (Slot.fill_of hamount _)
        (.cons rfl rfl (Slot.fill_of hcuts.readsBack_natural _)
          (.cons rfl rfl (Slot.fill_of (Snapshot.readsBack_list htrace) _) (.nil _)))))) rfl

theorem Plan.readsBack {p : Plan Float} (h : p.toJson.Faithful) : ReadsBack Plan.read p.toJson p := by
  have each := faithful_record.1 h
  simp only [List.forall_mem_cons] at each
  obtain ⟨hquantities, hincome, hcuts, -, htrace, -⟩ := each
  exact ReadsBack.record (.cons rfl rfl (Slot.fill_of hquantities.readsBack_reals _)
    (.cons rfl rfl (Slot.fill_of hincome.readsBack_real _)
      (.cons rfl rfl (Slot.fill_of hcuts.readsBack_natural _)
        (.cons rfl rfl (Slot.fill_of (readsBack_text p.message) _)
          (.cons rfl rfl (Slot.fill_of (Snapshot.readsBack_list htrace) _) (.nil _)))))) rfl

/-! ### Problems, options and requests -/

theorem Problem.readsBack {p : Problem Float} (h : p.toJson.Faithful) : ReadsBack Problem.read p.toJson p := by
  have each := faithful_record.1 h
  simp only [List.forall_mem_cons] at each
  obtain ⟨hsupply, hconsumption, hprofit, -⟩ := each
  exact ReadsBack.record (.cons rfl rfl (Slot.fill_of hsupply.readsBack_reals _)
    (.cons rfl rfl (Slot.fill_of hconsumption.readsBack_rows _)
      (.cons rfl rfl (Slot.fill_of hprofit.readsBack_reals _) (.nil _)))) rfl

theorem Options.readsBack {o : Options Float} (h : o.toJson.Faithful) : ReadsBack Options.read o.toJson o := by
  have each := faithful_record.1 h
  simp only [List.forall_mem_cons] at each
  obtain ⟨hepsilon, hcuts, hpivots, -⟩ := each
  have hlimit := readsBack_optional fun n hn =>
    ⟨(hpivots.of_some n hn).readsBack_natural, (hpivots.of_some n hn).begins_natural⟩
  exact ReadsBack.record (.cons rfl rfl (Slot.fill_of hepsilon.readsBack_real _)
    (.cons rfl rfl (Slot.fill_of hcuts.readsBack_natural _)
      (.cons rfl rfl (Slot.fill_of hlimit _) (.nil _)))) rfl

theorem PlanRequest.readsBack {r : PlanRequest Float} (h : r.toJson.Faithful) :
    ReadsBack PlanRequest.read r.toJson r := by
  have each := faithful_record.1 h
  simp only [List.forall_mem_cons] at each
  obtain ⟨hsupply, hconsumption, hprofit, hoptions, -⟩ := each
  exact ReadsBack.record (.cons rfl rfl (Slot.fill_of hsupply.readsBack_reals _)
    (.cons rfl rfl (Slot.fill_of hconsumption.readsBack_rows _)
      (.cons rfl rfl (Slot.fill_of hprofit.readsBack_reals _)
        (.cons rfl rfl (Slot.fill_of (Options.readsBack hoptions) _) (.nil _))))) rfl

/-! ### Documents -/

/-- Every value of these types whose numbers are read back is read back as a whole, in either written form. A
double that is written with at most fifteen digits and a power of ten up to 22 is read back. With seventeen
digits it may come back as a neighbour, which happens to about one in ten of the doubles between zero and one,
so a value with results of divisions in it often is not read back. -/
theorem readDocument_render (style : Json.Style) :
    (∀ s : Snapshot Float, s.toJson.Faithful → readDocument Snapshot.read (s.toJson.render style) = .ok s) ∧
    (∀ s : Solution Float, s.toJson.Faithful → readDocument Solution.read (s.toJson.render style) = .ok s) ∧
    (∀ p : Plan Float, p.toJson.Faithful → readDocument Plan.read (p.toJson.render style) = .ok p) ∧
    (∀ r : PlanRequest Float, r.toJson.Faithful →
      readDocument PlanRequest.read (r.toJson.render style) = .ok r) ∧
    (∀ p : Problem Float, p.toJson.Faithful → readDocument Problem.read (p.toJson.render style) = .ok p) ∧
    (∀ o : Options Float, o.toJson.Faithful → readDocument Options.read (o.toJson.render style) = .ok o) ∧
    (∀ o : Outcome, readDocument Outcome.read (o.toJson.render style) = .ok o) :=
  ⟨fun _ h => (Snapshot.readsBack h).document style, fun _ h => (Solution.readsBack h).document style,
    fun _ h => (Plan.readsBack h).document style, fun _ h => (PlanRequest.readsBack h).document style,
    fun _ h => (Problem.readsBack h).document style, fun _ h => (Options.readsBack h).document style,
    fun o => (Outcome.readsBack o).document style⟩

theorem readDocument_render_half :
    let snapshot : Snapshot Float := ⟨"step \"1\"\n", ⟨1, 2, #v[0.5, 0.5]⟩, ["x"], ["y", ""]⟩
    let solution : Solution Float := ⟨.optimal, Valuation.empty.set "x" 0.5, some 0.5, 1, [snapshot]⟩
    let plan : Plan Float := ⟨[0.5], 0.5, 1, "done", [snapshot]⟩
    let options : Options Float := ⟨0.5, 20, none⟩
    let request : PlanRequest Float := ⟨[0.5], [[0.5]], [0.5], options⟩
    readDocument Snapshot.read (snapshot.toJson.render .pretty) = .ok snapshot ∧
      readDocument Solution.read (solution.toJson.render .pretty) = .ok solution ∧
      readDocument Plan.read (plan.toJson.render .pretty) = .ok plan ∧
      readDocument PlanRequest.read (request.toJson.render .pretty) = .ok request ∧
      readDocument Problem.read (request.problem.toJson.render .pretty) = .ok request.problem ∧
      readDocument Options.read (options.toJson.render .pretty) = .ok options ∧
      readDocument Outcome.read (Outcome.optimal.toJson.render .pretty) = .ok .optimal := by
  intro snapshot solution plan options request
  obtain ⟨hsnapshot, hsolution, hplan, hrequest, hproblem, hoptions, houtcome⟩ := readDocument_render .pretty
  have hhalf : (Json.real 0.5).Faithful := .real rfl rfl
  have hs : snapshot.toJson.Faithful := by
    simp [snapshot, Snapshot.toJson, Grid.toJson, Json.reals, Json.listOf, hhalf]
  have ho : options.toJson.Faithful := by
    simp [options, Options.toJson, Json.optional, hhalf]
  refine ⟨hsnapshot _ hs, hsolution _ ?_, hplan _ ?_, hrequest _ ?_, hproblem _ ?_, hoptions _ ho,
    houtcome .optimal⟩
  · simp [solution, Solution.toJson, Outcome.toJson, Valuation.toJson, Valuation.set, Valuation.place,
      Valuation.empty, Json.optional, Json.listOf, hs, hhalf]
  · simp [plan, Plan.toJson, Json.reals, Json.listOf, hs, hhalf]
  · simp [request, PlanRequest.toJson, Json.reals, Json.listOf, ho, hhalf]
  · simp [request, PlanRequest.problem, Problem.toJson, Json.reals, Json.listOf, hhalf]

end CuttingPlane
