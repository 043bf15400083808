import ScanPolicy.Recurrence.RuleText
import ScanPolicy.Proofs.Outcome
import ScanPolicy.Proofs.Text.Marks

/-!
# What a rule text gives

The parts of a rule text are read one after the other, and each of them sets one field of
the draft. If no name comes twice, a field has what its own part gives, or else what it
had at the beginning.

- `RuleText.Sets`: what one part sets.
- `RuleText.Reads`: what several parts set.
- `RuleText.Reads.field`: a field that only one part sets.
- `RuleText.Reads.ints`, `RuleText.Reads.weekdays`: the parts that a rule is completed from.
-/

namespace ScanPolicy

namespace RuleText

/-! ## One part -/

/-- The names of the part that sets weekdays. -/
def weekdaysNames : List String := ["BYDAY", "BYWEEKDAY"]

/-- What a part sets in a draft. -/
inductive Sets (value : Text) (d : Draft) : String → Draft → Prop
  | freq {f : Frequency} (h : Frequency.ofName? value = some f) :
      Sets value d "FREQ" { d with freq := some f }
  | interval {n : Int} (h : Text.toInt? value = some n) :
      Sets value d "INTERVAL" { d with interval := n }
  | count {n : Int} (h : Text.toInt? value = some n) :
      Sets value d "COUNT" { d with count := some n }
  | weekStart {w : Nat} (h : weekday? value = some w) :
      Sets value d "WKST" { d with weekStart := w }
  | weekdays {name : String} {ws : List WeekdayPart} (hname : name ∈ weekdaysNames) :
      Sets value d name { d with parts := { d.parts with weekdays := some ws } }
  | ints {name : String} {set : List Int → Parts → Parts} {v : List Int}
      (hset : (name, set) ∈ intLists) (h : ints? value = some v) :
      Sets value d name { d with parts := set v d.parts }

theorem sets_of_setPart? {name : String} {value : Text} {d d' : Draft}
    (h : setPart? name value d = some (some d')) : Sets value d name d' := by
  have hsome : ∀ {α : Type} {x : Option α} {g : α → Draft}, some (x.map g) = some (some d') →
      ∃ a, x = some a ∧ g a = d' := fun heq => Option.map_eq_some_iff.mp (Option.some.inj heq)
  unfold setPart? at h
  split at h
  · obtain ⟨f, hf, rfl⟩ := hsome h
    exact .freq hf
  · obtain ⟨n, hn, rfl⟩ := hsome h
    exact .interval hn
  · obtain ⟨n, hn, rfl⟩ := hsome h
    exact .count hn
  · cases Option.some.inj h
  · obtain ⟨w, hw, rfl⟩ := hsome h
    exact .weekStart hw
  · obtain ⟨ws, -, rfl⟩ := hsome h
    exact .weekdays (by decide)
  · obtain ⟨ws, -, rfl⟩ := hsome h
    exact .weekdays (by decide)
  · split at h
    · next set hset =>
      obtain ⟨v, hv, rfl⟩ := hsome h
      obtain ⟨l₁, l₂, heq, -⟩ := List.lookup_eq_some_iff.mp hset
      refine .ints ?_ hv
      rw [heq]
      exact List.mem_append_right _ List.mem_cons_self
    · cases h

/-! ## Several parts -/

/-- What parts set in a draft one after the other. -/
inductive Reads : Draft → List (Text × Text) → Draft → Prop
  | nil {d : Draft} : Reads d [] d
  | cons {d d' d'' : Draft} {name value : Text} {rest : List (Text × Text)}
      (h : Sets value d (String.ofList name) d') (hrest : Reads d' rest d'') :
      Reads d ((name, value) :: rest) d''

/-- A text of a name and a value that can be read is cut at its only equals sign. -/
theorem sets_of_addPart {d d' : Draft} {name value : Text} (hname : '=' ∉ name)
    (h : addPart d (name ++ '=' :: value) = .ok d') : Sets value d (String.ofList name) d' := by
  unfold addPart at h
  rw [Text.pieces_append, Text.pieces_of_not_mem hname, List.singleton_append] at h
  split at h
  · next heq =>
    obtain ⟨rfl, hvalue⟩ := List.cons.inj heq
    rw [← Text.eq_of_pieces_eq hvalue] at h
    split at h
    · cases h
    · cases h
    · next hset =>
      cases h
      exact sets_of_setPart? hset
  · split at h <;> cases h

theorem reads_of_foldlM {ps : List (Text × Text)} (hnames : ∀ p ∈ ps, '=' ∉ p.1) {d d' : Draft}
    (h : (ps.map fun (k, v) => k ++ '=' :: v).foldlM addPart d = .ok d') : Reads d ps d' := by
  induction ps generalizing d with
  | nil =>
    cases h
    exact .nil
  | cons p rest ih =>
    obtain ⟨name, value⟩ := p
    rw [List.map_cons, List.foldlM_cons] at h
    obtain ⟨d₁, hadd, h⟩ := bind_eq_ok_iff.mp h
    exact .cons (sets_of_addPart (hnames _ List.mem_cons_self) hadd)
      (ih (fun q hq => hnames q (List.mem_cons_of_mem _ hq)) h)

section Field

variable {α : Type} {get : Draft → α} {name : String}

/-- A field that only parts with one name set stays the same if there is none. -/
theorem Reads.field_of_not_mem {d d' : Draft} {ps : List (Text × Text)} (h : Reads d ps d')
    (hframe : ∀ {value d n d'}, Sets value d n d' → n.toList ∈ ps.map Prod.fst → n ≠ name →
      get d' = get d)
    (hname : name.toList ∉ ps.map Prod.fst) : get d' = get d := by
  induction h with
  | nil => rfl
  | @cons _ _ _ key _ _ h _ ih =>
    obtain ⟨hne, hrest⟩ := List.ne_and_not_mem_of_not_mem_cons hname
    rw [ih (fun hsets hmem => hframe hsets (List.mem_cons_of_mem _ hmem)) hrest]
    refine hframe h ?_ fun heq => hne ?_
    · rw [String.toList_ofList]
      exact List.mem_cons_self
    · rw [← heq, String.toList_ofList]

/-- A field that only parts with one name set has what the last one gives. -/
theorem Reads.field {d d' : Draft} {ps : List (Text × Text)} (h : Reads d ps d')
    (hframe : ∀ {value d n d'}, Sets value d n d' → n.toList ∈ ps.map Prod.fst → n ≠ name →
      get d' = get d)
    (hnodup : (ps.map Prod.fst).Nodup) {value : Text} (hmem : (name.toList, value) ∈ ps) :
    ∃ d₁ d₂, Sets value d₁ name d₂ ∧ get d' = get d₂ := by
  induction h with
  | nil => cases hmem
  | @cons d₁ d₂ _ key v rest h hrest ih =>
    obtain ⟨hnot, hnodup⟩ := List.nodup_cons.mp hnodup
    have hlater : ∀ {value d n d'}, Sets value d n d' → n.toList ∈ rest.map Prod.fst → n ≠ name →
        get d' = get d := fun hsets hkey => hframe hsets (List.mem_cons_of_mem _ hkey)
    rcases List.mem_cons.mp hmem with heq | hmem
    · obtain ⟨rfl, rfl⟩ := Prod.mk.inj heq
      rw [String.ofList_toList] at h
      exact ⟨d₁, d₂, h, hrest.field_of_not_mem hlater hnot⟩
    · exact ih hlater hnodup hmem

end Field

/-! ## The fields of a draft -/

/-- The names of the parts that set no list of integers. -/
def otherNames : List String := ["FREQ", "INTERVAL", "COUNT", "WKST"] ++ weekdaysNames

/-- The names of all parts that can be read. -/
def partNames : List String := otherNames ++ intLists.map Prod.fst

/-- Only parts with these names can be read. -/
theorem Reads.names {d d' : Draft} {ps : List (Text × Text)} (h : Reads d ps d') :
    ∀ p ∈ ps, String.ofList p.1 ∈ partNames := by
  have hstep : ∀ {value d n d'}, Sets value d n d' → n ∈ partNames := by
    intro value d n d' hsets
    cases hsets with
    | weekdays hname => exact List.mem_append_left _ (List.mem_append_right _ hname)
    | ints hset _ => exact List.mem_append_right _ (List.mem_map_of_mem hset)
    | _ => decide
  induction h with
  | nil => exact fun p hp => absurd hp List.not_mem_nil
  | cons hsets _ ih =>
    intro p hp
    rcases List.mem_cons.mp hp with rfl | hp
    · exact hstep hsets
    · exact ih p hp

/-- A list of integers that the part with one name sets. -/
structure IsIntField (name : String) (get : Parts → Option (List Int)) : Prop where
  not_other : name ∉ otherNames
  absent : get {} = none
  weekdays : ∀ p ws, get { p with weekdays := ws } = get p
  ints : ∀ entry ∈ intLists, ∀ v p, get (entry.2 v p) = if entry.1 = name then some v else get p

/-- The lists of integers with their names. -/
def intFields : List (String × (Parts → Option (List Int))) := [
  ("BYMONTH", Parts.months), ("BYMONTHDAY", Parts.monthDays), ("BYYEARDAY", Parts.yearDays),
  ("BYEASTER", Parts.easters), ("BYWEEKNO", Parts.weekNumbers), ("BYHOUR", Parts.hours),
  ("BYMINUTE", Parts.minutes), ("BYSECOND", Parts.seconds)]

theorem isIntField_of_mem {name : String} {get : Parts → Option (List Int)}
    (h : (name, get) ∈ intFields) : IsIntField name get := by
  have hall : ∀ field ∈ intFields, IsIntField field.1 field.2 := by
    have hints : ∀ field ∈ intFields, ∀ entry ∈ intLists, ∀ v p,
        field.2 (entry.2 v p) = if entry.1 = field.1 then some v else field.2 p := by
      simp [intFields, intLists]
    have hweekdays : ∀ field ∈ intFields, ∀ p ws,
        field.2 { p with weekdays := ws } = field.2 p := by
      simp [intFields]
    have hother : ∀ field ∈ intFields, field.1 ∉ otherNames := by
      simp [intFields, otherNames, weekdaysNames]
    have habsent : ∀ field ∈ intFields, field.2 {} = none := by
      simp [intFields]
    exact fun field hfield =>
      ⟨hother field hfield, habsent field hfield, hweekdays field hfield, hints field hfield⟩
  exact hall _ h

section Fields

variable {d : Draft} {ps : List (Text × Text)}

theorem ints_nonempty {value : Text} {v : List Int} (h : ints? value = some v) : v ≠ [] := by
  unfold ints? at h
  cases hpieces : Text.pieces ',' value with
  | nil => exact absurd hpieces (Text.pieces_ne_nil _ _)
  | cons p rest =>
    rw [hpieces, List.mapM_cons] at h
    obtain ⟨n, -, h⟩ := Option.bind_eq_some_iff.mp h
    obtain ⟨ns, -, h⟩ := Option.bind_eq_some_iff.mp h
    cases h
    exact List.cons_ne_nil _ _

/-- A list of integers is there if its part is, and then has the integers of the part. -/
theorem Reads.ints (h : Reads {} ps d) (hnodup : (ps.map Prod.fst).Nodup) {name : String}
    {get : Parts → Option (List Int)} (hget : (name, get) ∈ intFields) :
    (name.toList ∉ ps.map Prod.fst → get d.parts = none) ∧
      ∀ value, (name.toList, value) ∈ ps → ∃ v, ints? value = some v ∧ get d.parts = some v := by
  have hfield := isIntField_of_mem hget
  have hframe : ∀ {value d n d'}, Sets value d n d' → n.toList ∈ ps.map Prod.fst → n ≠ name →
      get d'.parts = get d.parts := by
    intro value d n d' hsets _ hn
    cases hsets with
    | weekdays _ => exact hfield.weekdays _ _
    | ints hset _ => exact (hfield.ints _ hset _ _).trans (if_neg hn)
    | _ => rfl
  refine ⟨fun hnot => ?_, fun value hmem => ?_⟩
  · rw [h.field_of_not_mem hframe hnot]
    exact hfield.absent
  · obtain ⟨d₁, d₂, hsets, heq⟩ := h.field hframe hnodup hmem
    have hother := hfield.not_other
    cases hsets with
    | @ints _ _ v hset hv => exact ⟨v, hv, heq.trans ((hfield.ints _ hset _ _).trans (if_pos rfl))⟩
    | weekdays hname => exact absurd (List.mem_append_right _ hname) hother
    | _ => exact absurd (by decide) hother

theorem Reads.isSome_ints (h : Reads {} ps d) (hnodup : (ps.map Prod.fst).Nodup) {name : String}
    {get : Parts → Option (List Int)} (hget : (name, get) ∈ intFields) :
    (get d.parts).isSome = decide (name.toList ∈ ps.map Prod.fst) ∧
      Parts.isGiven (get d.parts) = decide (name.toList ∈ ps.map Prod.fst) := by
  obtain ⟨hnone, hsome⟩ := h.ints hnodup hget
  by_cases hmem : name.toList ∈ ps.map Prod.fst
  · obtain ⟨⟨key, value⟩, hp, hkey⟩ := List.mem_map.mp hmem
    obtain rfl : key = name.toList := hkey
    obtain ⟨v, hv, heq⟩ := hsome value hp
    rw [heq, decide_eq_true hmem]
    refine ⟨rfl, ?_⟩
    cases v with
    | nil => exact absurd rfl (ints_nonempty hv)
    | cons n ns => rfl
  · rw [hnone hmem, decide_eq_false hmem]
    exact ⟨rfl, rfl⟩

theorem not_mem_intLists {name : String} (hname : name ∈ otherNames)
    (set : List Int → Parts → Parts) : (name, set) ∉ intLists := by
  have hall : ∀ entry ∈ intLists, entry.1 ∉ otherNames := by
    simp [intLists, otherNames, weekdaysNames]
  exact fun hset => hall _ hset hname

/-- Weekdays are there if their part is, if it does not have its second name. -/
theorem Reads.weekdays (h : Reads {} ps d) (hnodup : (ps.map Prod.fst).Nodup)
    (hsecond : "BYWEEKDAY".toList ∉ ps.map Prod.fst) :
    d.parts.weekdays.isSome = decide ("BYDAY".toList ∈ ps.map Prod.fst) := by
  have hframe : ∀ {value d n d'}, Sets value d n d' → n.toList ∈ ps.map Prod.fst → n ≠ "BYDAY" →
      d'.parts.weekdays = d.parts.weekdays := by
    intro value d n d' hsets hmem hn
    cases hsets with
    | weekdays hname =>
      rcases List.mem_cons.mp hname with rfl | hname
      · exact absurd rfl hn
      · obtain rfl := List.mem_singleton.mp hname
        exact absurd hmem hsecond
    | ints hset _ =>
      have hall : ∀ entry ∈ intLists, ∀ v p, (entry.2 v p).weekdays = p.weekdays := by
        simp [intLists]
      exact hall _ hset _ _
    | _ => rfl
  have hown : ∀ {value d n d'}, Sets value d n d' → n = "BYDAY" →
      d'.parts.weekdays.isSome = true := by
    intro value d n d' hsets hn
    cases hsets with
    | weekdays _ => rfl
    | ints hset _ => exact absurd hset (not_mem_intLists (by rw [hn]; decide) _)
    | _ => exact absurd hn (by decide)
  by_cases hmem : "BYDAY".toList ∈ ps.map Prod.fst
  · obtain ⟨⟨_, value⟩, hp, rfl⟩ := List.mem_map.mp hmem
    obtain ⟨d₁, d₂, hsets, heq⟩ := h.field hframe hnodup hp
    rw [decide_eq_true hmem, heq, hown hsets rfl]
  · rw [decide_eq_false hmem, h.field_of_not_mem hframe hmem]
    rfl

/-- The frequency is the one that its part names. -/
theorem Reads.freq {d₀ : Draft} (h : Reads d₀ ps d) (hnodup : (ps.map Prod.fst).Nodup) {value : Text}
    (hmem : ("FREQ".toList, value) ∈ ps) : d.freq = Frequency.ofName? value := by
  have hframe : ∀ {value d n d'}, Sets value d n d' → n.toList ∈ ps.map Prod.fst → n ≠ "FREQ" →
      d'.freq = d.freq := by
    intro value d n d' hsets _ hn
    cases hsets with
    | freq _ => exact absurd rfl hn
    | _ => rfl
  have hown : ∀ {value d n d'}, Sets value d n d' → n = "FREQ" →
      d'.freq = Frequency.ofName? value := by
    intro value d n d' hsets hn
    cases hsets with
    | freq hvalue => exact hvalue.symm
    | weekdays hname => exact absurd (hn ▸ hname) (by decide)
    | ints hset _ => exact absurd hset (not_mem_intLists (by rw [hn]; decide) _)
    | _ => exact absurd hn (by decide)
  obtain ⟨d₁, d₂, hsets, heq⟩ := h.field hframe hnodup hmem
  rw [heq, hown hsets rfl]

/-- The interval is the one that its part gives, or the one before. -/
theorem Reads.interval {d₀ : Draft} (h : Reads d₀ ps d) (hnodup : (ps.map Prod.fst).Nodup) :
    ("INTERVAL".toList ∉ ps.map Prod.fst → d.interval = d₀.interval) ∧
      ∀ value, ("INTERVAL".toList, value) ∈ ps → Text.toInt? value = some d.interval := by
  have hframe : ∀ {value d n d'}, Sets value d n d' → n.toList ∈ ps.map Prod.fst →
      n ≠ "INTERVAL" → d'.interval = d.interval := by
    intro value d n d' hsets _ hn
    cases hsets with
    | interval _ => exact absurd rfl hn
    | _ => rfl
  have hown : ∀ {value d n d'}, Sets value d n d' → n = "INTERVAL" →
      Text.toInt? value = some d'.interval := by
    intro value d n d' hsets hn
    cases hsets with
    | interval hvalue => exact hvalue
    | weekdays hname => exact absurd (hn ▸ hname) (by decide)
    | ints hset _ => exact absurd hset (not_mem_intLists (by rw [hn]; decide) _)
    | _ => exact absurd hn (by decide)
  refine ⟨fun hnot => h.field_of_not_mem hframe hnot, fun value hmem => ?_⟩
  obtain ⟨d₁, d₂, hsets, heq⟩ := h.field hframe hnodup hmem
  rw [heq]
  exact hown hsets rfl

/-- The count is the one that its part gives, or the one before. -/
theorem Reads.count {d₀ : Draft} (h : Reads d₀ ps d) (hnodup : (ps.map Prod.fst).Nodup) :
    ("COUNT".toList ∉ ps.map Prod.fst → d.count = d₀.count) ∧
      ∀ value, ("COUNT".toList, value) ∈ ps → Text.toInt? value = d.count := by
  have hframe : ∀ {value d n d'}, Sets value d n d' → n.toList ∈ ps.map Prod.fst →
      n ≠ "COUNT" → d'.count = d.count := by
    intro value d n d' hsets _ hn
    cases hsets with
    | count _ => exact absurd rfl hn
    | _ => rfl
  have hown : ∀ {value d n d'}, Sets value d n d' → n = "COUNT" →
      Text.toInt? value = d'.count := by
    intro value d n d' hsets hn
    cases hsets with
    | count hvalue => exact hvalue
    | weekdays hname => exact absurd (hn ▸ hname) (by decide)
    | ints hset _ => exact absurd hset (not_mem_intLists (by rw [hn]; decide) _)
    | _ => exact absurd hn (by decide)
  refine ⟨fun hnot => h.field_of_not_mem hframe hnot, fun value hmem => ?_⟩
  obtain ⟨d₁, d₂, hsets, heq⟩ := h.field hframe hnodup hmem
  rw [heq]
  exact hown hsets rfl

theorem weekday?_lt {value : Text} {w : Nat} (h : weekday? value = some w) : w < 7 := by
  obtain ⟨hlt, -⟩ := List.idxOf?_eq_some_iff.mp h
  exact hlt

/-- Weeks start on one of the seven weekdays. -/
theorem weekStart_of_sets {value : Text} {d d' : Draft} {name : String} (h : Sets value d name d')
    (hd : d.weekStart < 7) : d'.weekStart < 7 := by
  cases h with
  | weekStart hvalue => exact weekday?_lt hvalue
  | _ => exact hd

theorem Reads.weekStart {d d' : Draft} (h : Reads d ps d') (hd : d.weekStart < 7) :
    d'.weekStart < 7 := by
  induction h with
  | nil => exact hd
  | cons hsets _ ih => exact ih (weekStart_of_sets hsets hd)

/-- This holds for all texts that can be read, not only for those that are cut at one place. -/
theorem weekStart_of_readParts {t : Text} {d : Draft} (h : readParts t = .ok d) : d.weekStart < 7 := by
  have hstep : ∀ {d d' : Draft} {pair : Text}, addPart d pair = .ok d' → d.weekStart < 7 →
      d'.weekStart < 7 := by
    intro d d' pair hadd hd
    unfold addPart at hadd
    split at hadd
    · split at hadd
      · cases hadd
      · cases hadd
      · next hset =>
        cases hadd
        exact weekStart_of_sets (sets_of_setPart? hset) hd
    · split at hadd <;> cases hadd
  have hrun : ∀ (pairs : List Text) {d d' : Draft}, pairs.foldlM addPart d = .ok d' →
      d.weekStart < 7 → d'.weekStart < 7 := by
    intro pairs
    induction pairs with
    | nil =>
      intro d d' h hd
      cases h
      exact hd
    | cons pair rest ih =>
      intro d d' h hd
      rw [List.foldlM_cons] at h
      obtain ⟨d₁, hadd, h⟩ := bind_eq_ok_iff.mp h
      exact ih h (hstep hadd hd)
  exact hrun _ h (by decide)

end Fields

end RuleText

end ScanPolicy
