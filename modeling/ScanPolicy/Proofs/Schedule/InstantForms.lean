import ScanPolicy.Proofs.Schedule.Anchors
import ScanPolicy.Proofs.Text.Marks
import ScanPolicy.Schedule.Descriptor

/-!
# The forms of instants

A text in ASCII is an instant exactly if, without the blanks around it, it is a date of eight digits, or
such a date, `T` and a time of six digits, and possibly `Z`, and the digits are a date of the calendar
and a time of day. The reader takes each field by itself; a field that is out of range is never read
with other digits.

- `Instant.Fields`: a date and a time of day; `Instant.Fields.IsValid`, `Instant.Fields.ShownBy`.
- `Instant.Gives`: a text and the fields that its digits give.
- `Instant.form?_eq_some_iff`: which texts have a form.
- `Instant.parse_of_ascii`: which texts are instants, and which instants they are.
-/

namespace ScanPolicy

namespace Text

/-- The digits of ASCII are the decimal digits among its characters. -/
theorem digit?_of_ascii {c : Char} (h : c.toNat < 128) : digit? c = asciiDigit? c := by
  have hall : ∀ n < 128, digit? (Char.ofNat n) = asciiDigit? (Char.ofNat n) := by decide +kernel
  exact of_toNat_lt (P := fun c => digit? c = asciiDigit? c) hall h

end Text

namespace Instant

/-! ## Fields -/

/-- A date and a time of day, as numbers. -/
structure Fields where
  date : Date
  hour : Nat
  minute : Nat
  second : Nat

/-- Whether fields are a date of the calendar and a time of day. -/
structure Fields.IsValid (f : Fields) : Prop where
  date : f.date.InMonth
  year : f.date.year ≤ Calendar.lastYear
  hour : f.hour < 24
  minute : f.minute < 60
  second : f.second < 60

/-- Whether a moment shows the fields, with no part of a second. -/
structure Fields.ShownBy (f : Fields) (t : WallTime) : Prop where
  date : t.date = f.date
  hour : t.hour = f.hour
  minute : t.minute = f.minute
  second : t.second = f.second
  microsecond : t.microsecond = 0

theorem isValid_iff {d : Date} : d.isValid = true ↔ d.InMonth ∧ d.year ≤ Calendar.lastYear := by
  unfold Date.isValid
  simp only [Bool.and_eq_true, decide_eq_true_eq]
  constructor
  · rintro ⟨⟨⟨⟨⟨hyear, hlast⟩, hmonth⟩, htwelve⟩, hday⟩, hend⟩
    exact ⟨⟨hyear, hmonth, htwelve, hday, hend⟩, hlast⟩
  · rintro ⟨⟨hyear, hmonth, htwelve, hday, hend⟩, hlast⟩
    exact ⟨⟨⟨⟨⟨hyear, hlast⟩, hmonth⟩, htwelve⟩, hday⟩, hend⟩

/-- The days of the calendar. -/
theorem dayNumber_lt {d : Date} (h : d.InMonth) (hyear : d.year ≤ Calendar.lastYear) :
    d.dayNumber < Calendar.dayCount := by
  have hmonth : d.monthNumber + 1 ≤ 12 * (Calendar.lastYear + 1) := by
    have := h.month_pos
    have := h.month_le
    unfold Date.monthNumber
    omega
  have hend := Calendar.monthStart_mono (Nat.le_succ_of_le h.twelve_le) hmonth
  rw [Calendar.monthStart_end] at hend
  exact lt_of_lt_of_le h.dayNumber_bounds.2 hend

/-- What a number of microseconds shows, given as a day and a time of day. -/
theorem shownBy_of_ticks {f : Fields} (h : f.IsValid) {t : WallTime}
    (ht : t.ticks = WallTime.ticksAt f.date.dayNumber f.hour f.minute f.second 0) : f.ShownBy t := by
  have hhour := h.hour
  have hminute := h.minute
  have hsecond := h.second
  unfold WallTime.ticksAt at ht
  rw [Span.day_eq, Span.hour_eq, Span.minute_eq, Span.second_eq] at ht
  refine ⟨?_, ?_, ?_, ?_, ?_⟩
  · have hday : t.dayNumber = f.date.dayNumber := by
      unfold WallTime.dayNumber
      rw [Int.fdiv_eq_ediv_of_nonneg _ (by decide), Span.day_eq]
      omega
    unfold WallTime.date
    rw [hday, Date.ofDayNumber_dayNumber h.date]
  · have heq := t.hour_eq
    rw [Span.hour_eq] at heq
    omega
  · have heq := t.minute_eq
    rw [Span.minute_eq] at heq
    omega
  · unfold WallTime.second WallTime.sinceMidnight
    rw [Int.fdiv_eq_ediv_of_nonneg _ (by decide), Int.fmod_eq_emod_of_nonneg _ (by decide),
      Int.fmod_eq_emod_of_nonneg _ (by decide), Span.day_eq, Span.second_eq]
    omega
  · unfold WallTime.microsecond
    rw [Int.fmod_eq_emod_of_nonneg _ (by decide), Span.second_eq]
    omega

/-- Fields are a wall time if they are valid, and the wall time shows them. -/
theorem ofFields?_spec (f : Fields) :
    (f.IsValid → ∃ t, WallTime.ofFields? f.date f.hour f.minute f.second 0 = some t ∧ f.ShownBy t) ∧
    (¬ f.IsValid → WallTime.ofFields? f.date f.hour f.minute f.second 0 = none) := by
  have hguard : (f.date.isValid && f.hour < 24 && f.minute < 60 && f.second < 60 && 0 < 1000000) =
      true ↔ f.IsValid := by
    simp only [Bool.and_eq_true, decide_eq_true_eq, isValid_iff]
    constructor
    · rintro ⟨⟨⟨⟨⟨hdate, hyear⟩, hhour⟩, hminute⟩, hsecond⟩, -⟩
      exact ⟨hdate, hyear, hhour, hminute, hsecond⟩
    · rintro ⟨hdate, hyear, hhour, hminute, hsecond⟩
      exact ⟨⟨⟨⟨⟨hdate, hyear⟩, hhour⟩, hminute⟩, hsecond⟩, by decide⟩
  unfold WallTime.ofFields?
  constructor
  · intro h
    rw [if_pos (hguard.mpr h)]
    have hday := dayNumber_lt h.date h.year
    have hhour := h.hour
    have hminute := h.minute
    have hsecond := h.second
    have hbounds : 0 ≤ WallTime.ticksAt f.date.dayNumber f.hour f.minute f.second 0 ∧
        WallTime.ticksAt f.date.dayNumber f.hour f.minute f.second 0 <
          (Calendar.dayCount : Int) * Span.day := by
      unfold WallTime.ticksAt
      rw [Span.day_eq, Span.hour_eq, Span.minute_eq, Span.second_eq]
      omega
    obtain ⟨t, ht, hticks⟩ := WallTime.ofTicks?_isSome hbounds.1 hbounds.2
    exact ⟨t, ht, shownBy_of_ticks h hticks⟩
  · intro h
    rw [if_neg (mt hguard.mp h)]

/-! ## Digits -/

/-- Eight digits and the date that they give. -/
structure GivesDate (t : Text) (d : Date) : Prop where
  length : t.length = 8
  year : Text.asciiNat? (t.take 4) = some d.year
  month : Text.asciiNat? ((t.drop 4).take 2) = some d.month
  day : Text.asciiNat? (t.drop 6) = some d.day

/-- Six digits and the time of day that they give. -/
structure GivesTime (t : Text) (hour minute second : Nat) : Prop where
  length : t.length = 6
  hour : Text.asciiNat? (t.take 2) = some hour
  minute : Text.asciiNat? ((t.drop 2).take 2) = some minute
  second : Text.asciiNat? (t.drop 4) = some second

/-- A text, the fields that its digits give, and whether it is marked as universal time. Without a time it
gives midnight. -/
inductive Gives : Text → Fields → Bool → Prop
  | date {t : Text} {d : Date} (h : GivesDate t d) : Gives t ⟨d, 0, 0, 0⟩ false
  | dateTime {t u : Text} {d : Date} {hour minute second : Nat} (h : GivesDate t d)
      (htime : GivesTime u hour minute second) :
      Gives (t ++ 'T' :: u) ⟨d, hour, minute, second⟩ false
  | universal {t u : Text} {d : Date} {hour minute second : Nat} (h : GivesDate t d)
      (htime : GivesTime u hour minute second) :
      Gives (t ++ 'T' :: (u ++ ['Z'])) ⟨d, hour, minute, second⟩ true

theorem asciiNat?_pair (a b : Char) : Text.asciiNat? [a, b] =
    (Text.asciiDigit? a).bind fun m => (Text.asciiDigit? b).map (10 * m + ·) := by
  unfold Text.asciiNat? Text.asciiDigit?
  cases ha : a.isDigit <;> cases hb : b.isDigit <;> simp [ha, hb]
  omega

/-- A field is read from two digits that give a number within its bounds. -/
theorem field?_eq_some_iff {low high n : Nat} {a b : Char} (hb : b.toNat < 128) :
    field? low high a b = some n ↔ Text.asciiNat? [a, b] = some n ∧ low ≤ n ∧ n ≤ high := by
  unfold field?
  simp only [asciiNat?_pair, Text.digit?_of_ascii hb, ite_self]
  cases Text.asciiDigit? a with
  | none => simp
  | some m =>
    cases Text.asciiDigit? b with
    | none => simp
    | some o =>
      simp only [Bool.and_eq_true, decide_eq_true_eq, Option.bind_some, Option.map_some,
        Option.some.injEq]
      split
      · next h => exact ⟨by rintro ⟨⟩; exact ⟨rfl, h⟩, fun h => congrArg some h.1⟩
      · next h => exact ⟨nofun, by rintro ⟨rfl, h'⟩; exact absurd h' h⟩

theorem year?_eq_asciiNat? {a b c d : Char} (h : ∀ x ∈ [a, b, c, d], x.toNat < 128) :
    year? a b c d = Text.asciiNat? [a, b, c, d] := by
  have hdigit : ∀ x ∈ [a, b, c, d], Text.digit? x = Text.asciiDigit? x := fun x hx =>
    Text.digit?_of_ascii (h x hx)
  unfold year?
  rw [hdigit a (by simp), hdigit b (by simp), hdigit c (by simp), hdigit d (by simp)]
  unfold Text.asciiNat? Text.asciiDigit?
  cases ha : a.isDigit <;> cases hb : b.isDigit <;> cases hc : c.isDigit <;> cases hd : d.isDigit <;>
    simp [ha, hb, hc, hd]
  omega

/-- Eight digits are read as a date if the month and the day are in the range of all months. -/
theorem date?_eq_some_iff {t : Text} (h : ∀ c ∈ t, c.toNat < 128) {d : Date} :
    date? t = some d ↔ GivesDate t d ∧ (1 ≤ d.month ∧ d.month ≤ 12) ∧ 1 ≤ d.day ∧ d.day ≤ 31 := by
  constructor
  · intro hread
    unfold date? at hread
    split at hread
    · next y1 y2 y3 y4 m1 m2 d1 d2 =>
      split at hread
      · next y m d hy hm hd =>
        cases hread
        rw [year?_eq_asciiNat? fun x hx => h x (List.mem_append_left [m1, m2, d1, d2] hx)] at hy
        rw [field?_eq_some_iff (h m2 (by simp))] at hm
        rw [field?_eq_some_iff (h d2 (by simp))] at hd
        exact ⟨⟨rfl, hy, hm.1, hd.1⟩, hm.2, hd.2⟩
      · cases hread
    · cases hread
  · rintro ⟨⟨hlength, hy, hm, hd⟩, hmonth, hday⟩
    obtain ⟨y1, y2, y3, y4, m1, m2, d1, d2, rfl⟩ : ∃ y1 y2 y3 y4 m1 m2 d1 d2,
        t = [y1, y2, y3, y4, m1, m2, d1, d2] := by
      match t, hlength with
      | [y1, y2, y3, y4, m1, m2, d1, d2], _ => exact ⟨y1, y2, y3, y4, m1, m2, d1, d2, rfl⟩
    have hyear := year?_eq_asciiNat? fun x hx => h x (List.mem_append_left [m1, m2, d1, d2] hx)
    unfold date?
    dsimp only
    rw [hyear.trans hy, (field?_eq_some_iff (h m2 (by simp))).mpr ⟨hm, hmonth⟩,
      (field?_eq_some_iff (h d2 (by simp))).mpr ⟨hd, hday⟩]

/-- Six digits are read as a time of day if each field is in its range. -/
theorem time?_eq_some_iff {t : Text} (h : ∀ c ∈ t, c.toNat < 128) {hour minute second : Nat} :
    time? t = some (hour, minute, second) ↔
      GivesTime t hour minute second ∧ hour < 24 ∧ minute < 60 ∧ second < 60 := by
  constructor
  · intro hread
    unfold time? at hread
    split at hread
    · next h1 h2 m1 m2 s1 s2 =>
      split at hread
      · next hour' minute' second' hh hm hs =>
        cases hread
        rw [field?_eq_some_iff (h h2 (by simp))] at hh
        rw [field?_eq_some_iff (h m2 (by simp))] at hm
        rw [field?_eq_some_iff (h s2 (by simp))] at hs
        exact ⟨⟨rfl, hh.1, hm.1, hs.1⟩, by omega, by omega, by omega⟩
      · cases hread
    · cases hread
  · rintro ⟨⟨hlength, hh, hm, hs⟩, hhour, hminute, hsecond⟩
    obtain ⟨h1, h2, m1, m2, s1, s2, rfl⟩ : ∃ h1 h2 m1 m2 s1 s2, t = [h1, h2, m1, m2, s1, s2] := by
      match t, hlength with
      | [h1, h2, m1, m2, s1, s2], _ => exact ⟨h1, h2, m1, m2, s1, s2, rfl⟩
    unfold time?
    dsimp only
    rw [(field?_eq_some_iff (h h2 (by simp))).mpr ⟨hh, by omega, by omega⟩,
      (field?_eq_some_iff (h m2 (by simp))).mpr ⟨hm, by omega, by omega⟩,
      (field?_eq_some_iff (h s2 (by simp))).mpr ⟨hs, by omega, by omega⟩]

/-- A date and a time in digits are a wall time if they are valid. -/
theorem wall?_eq_some_iff {t u : Text} (ht : ∀ c ∈ t, c.toNat < 128) (hu : ∀ c ∈ u, c.toNat < 128)
    {w : WallTime} : wall? t u = some w ↔ ∃ f : Fields, GivesDate t f.date ∧
      GivesTime u f.hour f.minute f.second ∧ f.IsValid ∧
      WallTime.ofFields? f.date f.hour f.minute f.second 0 = some w := by
  constructor
  · intro hread
    unfold wall? at hread
    split at hread
    · next d hour minute second hd htime =>
      obtain ⟨hd, -⟩ := (date?_eq_some_iff ht).mp hd
      obtain ⟨htime, -⟩ := (time?_eq_some_iff hu).mp htime
      refine ⟨⟨d, hour, minute, second⟩, hd, htime, ?_, hread⟩
      by_contra hvalid
      have hnone := (ofFields?_spec ⟨d, hour, minute, second⟩).2 hvalid
      dsimp only at hnone
      rw [hnone] at hread
      cases hread
    · cases hread
  · rintro ⟨f, hd, htime, hvalid, hfields⟩
    have hdate := hvalid.date
    have hday := (Calendar.daysIn_pos (y := f.date.year) hdate.month_pos hdate.month_le).2
    have hread := (date?_eq_some_iff ht).mpr ⟨hd, ⟨hdate.month_pos, hdate.month_le⟩, hdate.day_pos,
      hdate.day_le.trans hday⟩
    have htime := (time?_eq_some_iff hu).mpr ⟨htime, hvalid.hour, hvalid.minute, hvalid.second⟩
    unfold wall?
    rw [hread, htime]
    exact hfields

theorem givesTime_midnight {hour minute second : Nat} :
    GivesTime midnight hour minute second ↔ hour = 0 ∧ minute = 0 ∧ second = 0 := by
  have hzero : Text.asciiNat? ['0', '0'] = some 0 := by decide
  constructor
  · rintro ⟨-, hh, hm, hs⟩
    exact ⟨(Option.some.inj (hzero.symm.trans hh)).symm, (Option.some.inj (hzero.symm.trans hm)).symm,
      (Option.some.inj (hzero.symm.trans hs)).symm⟩
  · rintro ⟨rfl, rfl, rfl⟩
    exact ⟨rfl, hzero, hzero, hzero⟩

/-! ## Forms -/

/-- A text has a form if its digits give valid fields. -/
theorem form?_eq_some_iff {t : Text} (h : ∀ c ∈ t, c.toNat < 128) {w : WallTime} {marked : Bool} :
    form? t = some (w, marked) ↔ ∃ f, Gives t f marked ∧ f.IsValid ∧
      WallTime.ofFields? f.date f.hour f.minute f.second 0 = some w := by
  have hmidnight : ∀ c ∈ midnight, c.toNat < 128 := by
    intro c hc
    rw [List.eq_of_mem_replicate hc]
    decide
  constructor
  · intro hform
    have hwall : ∀ {u v : Text} {b : Bool}, (wall? u v).map (·, b) = some (w, marked) →
        wall? u v = some w ∧ b = marked := by
      intro u v b hmap
      obtain ⟨w', hw', heq⟩ := Option.map_eq_some_iff.mp hmap
      cases heq
      exact ⟨hw', rfl⟩
    unfold form? at hform
    split at hform
    · obtain ⟨hw, rfl⟩ := hwall hform
      obtain ⟨⟨d, _, _, _⟩, hd, htime, hvalid, hfields⟩ := (wall?_eq_some_iff h hmidnight).mp hw
      obtain ⟨rfl, rfl, rfl⟩ := givesTime_midnight.mp htime
      exact ⟨_, .date hd, hvalid, hfields⟩
    · next rest hdrop =>
      -- the text is what stands before and behind the letter
      have ht : t = t.take 8 ++ 'T' :: rest := by rw [← hdrop, List.take_append_drop]
      have hdate : ∀ c ∈ t.take 8, c.toNat < 128 := fun c hc => h c (List.mem_of_mem_take hc)
      have hrest : ∀ c ∈ rest, c.toNat < 128 := fun c hc =>
        h c (List.mem_of_mem_drop (hdrop ▸ List.mem_cons_of_mem _ hc))
      split at hform
      · obtain ⟨hw, rfl⟩ := hwall hform
        obtain ⟨f, hd, htime, hvalid, hfields⟩ := (wall?_eq_some_iff hdate hrest).mp hw
        exact ⟨f, ht ▸ .dateTime hd htime, hvalid, hfields⟩
      · next hzulu =>
        have hr : rest = rest.take 6 ++ ['Z'] := by rw [← hzulu, List.take_append_drop]
        obtain ⟨hw, rfl⟩ := hwall hform
        obtain ⟨f, hd, htime, hvalid, hfields⟩ :=
          (wall?_eq_some_iff hdate fun c hc => hrest c (List.mem_of_mem_take hc)).mp hw
        refine ⟨f, ?_, hvalid, hfields⟩
        rw [ht, hr]
        exact .universal hd htime
      · cases hform
    · cases hform
  · rintro ⟨f, hgives, hvalid, hfields⟩
    unfold form?
    cases hgives with
    | date hd =>
      rw [List.drop_eq_nil_of_le hd.length.le]
      dsimp only
      rw [(wall?_eq_some_iff h hmidnight).mpr
        ⟨_, hd, givesTime_midnight.mpr ⟨rfl, rfl, rfl⟩, hvalid, hfields⟩]
      rfl
    | @dateTime t u d hour minute second hd htime =>
      have hu : ∀ c ∈ u, c.toNat < 128 := fun c hc =>
        h c (List.mem_append_right _ (List.mem_cons_of_mem _ hc))
      have hw := (wall?_eq_some_iff (fun c hc => h c (List.mem_append_left _ hc)) hu).mpr
        ⟨_, hd, htime, hvalid, hfields⟩
      rw [List.drop_left' hd.length, List.take_left' hd.length]
      split
      · next hnil => cases hnil
      · next rest hrest =>
        obtain rfl : u = rest := (List.cons.inj hrest).2
        rw [List.drop_eq_nil_of_le htime.length.le, hw]
        rfl
      · next hother => exact absurd rfl (hother u)
    | @universal t u d hour minute second hd htime =>
      have hu : ∀ c ∈ u, c.toNat < 128 := fun c hc =>
        h c (List.mem_append_right _ (List.mem_cons_of_mem _ (List.mem_append_left _ hc)))
      have hw := (wall?_eq_some_iff (fun c hc => h c (List.mem_append_left _ hc)) hu).mpr
        ⟨_, hd, htime, hvalid, hfields⟩
      rw [List.drop_left' hd.length, List.take_left' hd.length]
      split
      · next hnil => cases hnil
      · next rest hrest =>
        obtain rfl : u ++ ['Z'] = rest := (List.cons.inj hrest).2
        rw [List.drop_left' htime.length, List.take_left' htime.length, hw]
        rfl
      · next hother => exact absurd rfl (hother (u ++ ['Z']))

/-- A text in ASCII whose digits give valid fields is the moment with these fields: on the universal clock
if it is marked so or if there is no zone, and on the clock of the zone otherwise. No other text in ASCII
is an instant. -/
theorem parse_of_ascii {v : Text} (h : ∀ c ∈ v, c.toNat < 128) (zone : Option Zone) :
    (∀ f marked, Gives (Text.trim v) f marked → f.IsValid →
      ∃ m, parse v (Descriptor.clockOf zone) = .ok m ∧ f.ShownBy m.wall ∧ m.fold = false ∧
        m.clock = if marked then .universal else Descriptor.clockOf zone) ∧
    ((¬ ∃ f marked, Gives (Text.trim v) f marked ∧ f.IsValid) →
      parse v (Descriptor.clockOf zone) = .error (.unreadable (.malformedInstant v))) := by
  have htrim : ∀ c ∈ Text.trim v, c.toNat < 128 := fun c hc => h c (Text.mem_of_mem_trim hc)
  constructor
  · intro f marked hgives hvalid
    obtain ⟨w, hw, hshown⟩ := (ofFields?_spec f).1 hvalid
    have hform := (form?_eq_some_iff htrim).mpr ⟨f, hgives, hvalid, hw⟩
    unfold parse
    rw [hform]
    cases marked with
    | true => exact ⟨_, rfl, hshown, rfl, rfl⟩
    | false => exact ⟨_, rfl, hshown, rfl, rfl⟩
  · intro hnone
    have hform : form? (Text.trim v) = none := by
      refine Option.eq_none_iff_forall_ne_some.mpr fun ⟨w, marked⟩ hform => hnone ?_
      obtain ⟨f, hgives, hvalid, -⟩ := (form?_eq_some_iff htrim).mp hform
      exact ⟨f, marked, hgives, hvalid⟩
    unfold parse
    rw [hform]

/-- The leap day of a year that ends a century, one second before midnight, between blanks; and the day
after it, which that century does not have. -/
theorem parse_of_ascii_leap_day :
    (∃ m, parse " 20000229T235959Z\n".toList .universal = .ok m ∧
      (⟨⟨2000, 2, 29⟩, 23, 59, 59⟩ : Fields).ShownBy m.wall ∧ m.clock = .universal) ∧
    parse " 19000229\n".toList .universal =
      .error (.unreadable (.malformedInstant " 19000229\n".toList)) := by
  constructor
  · obtain ⟨m, hm, hshown, -, hclock⟩ := (parse_of_ascii (v := " 20000229T235959Z\n".toList)
      (by simp) none).1 ⟨⟨2000, 2, 29⟩, 23, 59, 59⟩ true
      (.universal (t := "20000229".toList) (u := "235959".toList) ⟨rfl, rfl, rfl, rfl⟩
        ⟨rfl, rfl, rfl, rfl⟩)
      ⟨⟨by decide, by decide, by decide, by decide, by decide⟩, by decide, by decide, by decide,
        by decide⟩
    exact ⟨m, hm, hshown, hclock⟩
  · refine (parse_of_ascii (v := " 19000229\n".toList) (by simp) none).2 ?_
    rintro ⟨f, marked, hgives, hvalid⟩
    have htrim : Text.trim " 19000229\n".toList = "19000229".toList := by decide
    rw [htrim] at hgives
    generalize hv : "19000229".toList = v at hgives
    cases hgives with
    | @date _ d hd =>
      subst hv
      have hyear := Option.some.inj ((show Text.asciiNat? ("19000229".toList.take 4) = some 1900
        from by decide).symm.trans hd.year)
      have hmonth := Option.some.inj ((show Text.asciiNat? (("19000229".toList.drop 4).take 2) = some 2
        from by decide).symm.trans hd.month)
      have hday := Option.some.inj ((show Text.asciiNat? ("19000229".toList.drop 6) = some 29
        from by decide).symm.trans hd.day)
      have hend := hvalid.date.day_le
      rw [← hyear, ← hmonth, ← hday] at hend
      exact absurd hend (by decide)
    | dateTime hd htime =>
      have hlength := congrArg List.length hv
      rw [List.length_append, List.length_cons, hd.length, htime.length] at hlength
      exact absurd hlength (by decide)
    | universal hd htime =>
      have hlength := congrArg List.length hv
      rw [List.length_append, List.length_cons, List.length_append, hd.length, htime.length] at hlength
      exact absurd hlength (by decide)

end Instant

end ScanPolicy
