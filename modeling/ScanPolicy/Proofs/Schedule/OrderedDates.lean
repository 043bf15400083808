import ScanPolicy.Proofs.Moment.Comparison
import ScanPolicy.Proofs.Schedule.Merge
import ScanPolicy.Proofs.Schedule.Parsed

/-!
# Further dates of several zones

The further dates of a schedule may be read on different clocks. They are put in order once,
by the walls of common clocks and by the instants of different ones, and halving finds the
place after a moment by its instant. Both orders agree for dates that their clocks show for
the first time.

- `Clock.IsKnown`: the clocks of schedules; a known clock is known by its name.
- `Moment.sort_pairwise`, `Moment.distinct_pairwise`: the order of the dates.
- `Moment.IsShownOnce`, `Moment.agrees_of_isShownOnce`: dates that agree.
- `Descriptor.dates_ordered`, `Descriptor.dates_increasing`: further dates are in the order
  of their instants.
- `Source.datesNth_eq`: the further dates after a moment.
-/

namespace ScanPolicy

/-! ## Known clocks -/

namespace Clock

/-- Whether a clock is the universal one or that of a zone of the database. -/
def IsKnown : Clock → Prop
  | universal => True
  | zoned z => z ∈ Zone.table

theorem IsKnown.eq_of_same {a b : Clock} (ha : a.IsKnown) (hb : b.IsKnown) (h : a.same b) : b = a := by
  have hnames : (Zone.table.map Zone.name).Nodup := by decide
  cases a with
  | universal => exact eq_universal_of_same (by cases b <;> first | rfl | exact h)
  | zoned z =>
    cases b with
    | universal => cases h
    | zoned z' => rw [List.inj_on_of_nodup_map hnames ha hb (beq_iff_eq.mp h)]

theorem isKnown_of_loadZone {name : Text} {z : Zone} (h : Instant.loadZone name = .ok z) :
    (zoned z).IsKnown := by
  unfold Instant.loadZone Zone.find at h
  dsimp only at h
  split at h
  · next z' hfound =>
    cases h
    split at hfound
    · next z'' hz =>
      cases hfound
      exact List.mem_of_find?_eq_some hz
    · split at hfound <;> cases hfound
  · cases h
  · cases h

end Clock

/-! ## Order and repetitions -/

namespace Moment

theorem coincides_comm (a b : Moment) : a.coincides b = b.coincides a := by
  unfold coincides
  rw [same_comm, Bool.beq_comm]

/-- The list without repetitions has members of the list, none of which coincides with another
one. -/
theorem distinct_pairwise (ms : List Moment) :
    ((distinct ms).Pairwise fun a b => ¬ a.coincides b) ∧ ∀ m ∈ distinct ms, m ∈ ms := by
  -- what was seen before stays, and nothing is seen that coincides with it
  have hrun : ∀ ms seen : List Moment, (seen.Pairwise fun a b => ¬ a.coincides b) →
      ((ms.foldl (fun seen m => if m.isIn seen then seen else m :: seen) seen).Pairwise
        fun a b => ¬ a.coincides b) ∧
      ∀ m ∈ ms.foldl (fun seen m => if m.isIn seen then seen else m :: seen) seen,
        m ∈ seen ∨ m ∈ ms := by
    intro ms
    induction ms with
    | nil => exact fun seen hseen => ⟨hseen, fun m hm => .inl hm⟩
    | cons x rest ih =>
      intro seen hseen
      rw [List.foldl_cons]
      split
      · obtain ⟨hpairwise, hmem⟩ := ih seen hseen
        exact ⟨hpairwise, fun m hm => (hmem m hm).imp_right (List.mem_cons_of_mem _)⟩
      · next hnew =>
        have hnot : ∀ m ∈ seen, ¬ x.coincides m := fun m hm h =>
          hnew (List.any_eq_true.mpr ⟨m, hm, h⟩)
        obtain ⟨hpairwise, hmem⟩ := ih (x :: seen) (List.pairwise_cons.mpr ⟨hnot, hseen⟩)
        refine ⟨hpairwise, fun m hm => ?_⟩
        rcases hmem m hm with hm | hm
        · rcases List.mem_cons.mp hm with rfl | hm
          · exact .inr List.mem_cons_self
          · exact .inl hm
        · exact .inr (List.mem_cons_of_mem _ hm)
  obtain ⟨hpairwise, hmem⟩ := hrun ms [] List.Pairwise.nil
  exact ⟨hpairwise, fun m hm => (hmem m hm).resolve_left List.not_mem_nil⟩

theorem mem_sort {ms : List Moment} {m : Moment} : m ∈ sort ms ↔ m ∈ ms :=
  (List.mergeSort_perm _ _).mem_iff

/-- Two moments change their places if the second one comes before the first one. -/
theorem sort_pair {a b : Moment} (h : b.before a) : sort [a, b] = [b, a] := by
  unfold sort
  simp [List.mergeSort, List.MergeSort.Internal.splitInTwo, h]

/-- Moments that come one before the other as their instants do are sorted by their instants. -/
theorem sort_pairwise {ms : List Moment}
    (horder : ∀ a ∈ ms, ∀ b ∈ ms, a.before b = true ↔ a.instant < b.instant) :
    (sort ms).Pairwise fun a b => a.instant ≤ b.instant := by
  -- on these moments the order is a total one, which it is not in general
  have hsort : sort ms = ms.mergeSort fun a b => decide (a.instant ≤ b.instant) := by
    unfold sort
    have hmap := List.map_mergeSort (f := id) (l := ms) (r := fun a b => !b.before a)
      (s := fun a b => decide (a.instant ≤ b.instant)) ?_
    · rwa [List.map_id, List.map_id] at hmap
    · intro a ha b hb
      rw [Bool.eq_iff_iff, Bool.not_eq_true', Bool.eq_false_iff, Ne, horder b hb a ha,
        decide_eq_true_iff]
      exact not_lt
  rw [hsort]
  refine (List.pairwise_mergeSort ?_ ?_ ms).imp fun h => by simpa using h
  · intro a b c hab hbc
    simp only [decide_eq_true_eq] at *
    omega
  · intro a b
    simp only [Bool.or_eq_true, decide_eq_true_eq]
    omega

/-- Whether a clock shows a moment, and neither skips nor repeats it. -/
def IsShownOnce (m : Moment) : Prop := m.IsShownFirst ∧ ¬ m.isProblematic

theorem isShownOnce_universal (t : WallTime) : (universal t).IsShownOnce :=
  ⟨isShownFirst_universal t, fun h => by cases h⟩

/-- Moments that their clocks show for the first time agree, unless one instant is repeated by one of
two clocks. -/
theorem agrees_of_isShownFirst {m n : Moment} (hm : m.IsShownFirst) (hn : n.IsShownFirst)
    (hclock : m.clock.same n.clock → n.clock = m.clock) (horder : m.clock.ShowsInOrder)
    (hsettled : m.instant = n.instant →
      m.clock.same n.clock = true ∨ m.isProblematic = false ∧ n.isProblematic = false) :
    m.Agrees n := by
  refine ⟨before_iff hm hn hclock horder, ?_⟩
  unfold same
  split
  · next hsame =>
    -- on a common clock the walls are in the order of the instants, in both directions
    have hlt := wall_lt_iff hm hn (hclock hsame) horder
    have hgt := wall_lt_iff hn hm (hclock hsame).symm (hclock hsame ▸ horder)
    rw [beq_iff_eq]
    omega
  · next hother =>
    simp only [Bool.and_eq_true, beq_iff_eq, Bool.not_eq_true']
    constructor
    · rintro ⟨⟨hinstant, -⟩, -⟩
      exact hinstant
    · intro hinstant
      obtain ⟨hm', hn'⟩ := (hsettled hinstant).resolve_left hother
      exact ⟨⟨hinstant, hm'⟩, hn'⟩

theorem agrees_of_isShownOnce {m n : Moment} (hm : m.IsShownOnce) (hn : n.IsShownOnce)
    (hclock : m.clock.same n.clock → n.clock = m.clock) (horder : m.clock.ShowsInOrder) :
    m.Agrees n :=
  agrees_of_isShownFirst hm.1 hn.1 hclock horder fun _ =>
    .inr ⟨Bool.eq_false_iff.mpr hm.2, Bool.eq_false_iff.mpr hn.2⟩

theorem firstInstant_of_fold {m : Moment} (h : m.fold = false) : m.firstInstant = m.instant := by
  unfold firstInstant instant offset
  rw [h]

/-- First readings that agree count as one member of a set if they have one instant. -/
theorem coincides_of_instant {m n : Moment} (hm : m.fold = false) (hn : n.fold = false)
    (h : m.Agrees n) (hinstant : m.instant = n.instant) : m.coincides n := by
  unfold coincides
  rw [firstInstant_of_fold hm, firstInstant_of_fold hn, h.same.mpr hinstant, hinstant,
    beq_self_eq_true, Bool.and_true]

end Moment

/-! ## Further dates -/

namespace Descriptor

variable {text : Text} {zoneName : Option Text} {d : Descriptor}

/-- A schedule is read on a known clock. -/
theorem zone_isKnown (hparse : (parse text zoneName).run.value = .ok d) : (clockOf d.zone).IsKnown := by
  obtain ⟨properties, -, hread⟩ := isRead_of_parse hparse
  obtain ⟨p, -, hzone, -⟩ := hread.start_eq
  cases hz : d.zone with
  | none => trivial
  | some z =>
    rw [hz] at hzone
    unfold zoneOf at hzone
    split at hzone
    · obtain ⟨_, hload, h⟩ := map_eq_ok_iff.mp hzone
      cases h
      exact Clock.isKnown_of_loadZone hload
    · obtain ⟨_, hload, h⟩ := map_eq_ok_iff.mp hzone
      cases h
      exact Clock.isKnown_of_loadZone hload
    · cases hzone

/-- Its start is on that clock. -/
theorem start_clock (hparse : (parse text zoneName).run.value = .ok d) :
    d.start.clock = clockOf d.zone := by
  obtain ⟨properties, -, hread⟩ := isRead_of_parse hparse
  obtain ⟨p, -, -, hstart⟩ := hread.start_eq
  obtain ⟨m, hm, hstart⟩ := bind_eq_ok_iff.mp hstart
  cases hz : d.zone with
  | none =>
    rw [hz] at hm hstart
    cases hstart
    rcases (Instant.isRead_of_parse hm).clock_eq with h | h <;> exact h
  | some z =>
    rw [hz] at hm hstart
    dsimp only at hstart
    split at hstart
    · next n hn =>
      cases hstart
      unfold Moment.on? at hn
      split at hn
      · next hsame =>
        cases hn
        rcases (Instant.isRead_of_parse hm).clock_eq with h | h
        · rw [h] at hsame
          cases hsame
        · exact h
      · obtain ⟨t, -, hn⟩ := Option.bind_eq_some_iff.mp hn
        rw [← Moment.on?_universal] at hn
        exact (Moment.isOn_of_on? hn).clock_eq
    · cases hstart

/-- Further and excluded dates are read on known clocks. -/
theorem lists_isRead (hparse : (parse text zoneName).run.value = .ok d) :
    ∀ m ∈ d.dates ++ d.excluded, ∃ clock : Clock, clock.IsKnown ∧ Instant.IsRead clock m := by
  have hzone := zone_isKnown hparse
  obtain ⟨properties, -, hread⟩ := isRead_of_parse hparse
  obtain ⟨dates, excluded, hlists, hdates, hexcluded⟩ := hread.dates_eq
  obtain ⟨hread, hread'⟩ := forall_of_dateLists
    (P := fun m => ∃ clock : Clock, clock.IsKnown ∧ Instant.IsRead clock m) (fun p _ ms hms m hm => by
    rcases moments_isRead hms m hm with h | ⟨name, z, -, hz, h⟩
    · exact ⟨_, hzone, h⟩
    · exact ⟨_, Clock.isKnown_of_loadZone hz, h⟩) hlists
  intro m hm
  rcases List.mem_append.mp hm with hm | hm
  · rw [hdates, Moment.mem_sort] at hm
    exact hread m ((Moment.distinct_pairwise dates).2 m hm)
  · rw [hexcluded] at hm
    exact hread' m ((Moment.distinct_pairwise excluded).2 m hm)

/-- So they are on known clocks. -/
theorem lists_isKnown (hparse : (parse text zoneName).run.value = .ok d) :
    ∀ m ∈ d.dates ++ d.excluded, m.clock.IsKnown := by
  intro m hm
  obtain ⟨clock, hclock, hread⟩ := lists_isRead hparse m hm
  rcases hread.clock_eq with h | h <;> rw [h]
  · trivial
  · exact hclock

/-- Further dates are first readings. -/
theorem dates_fold (hparse : (parse text zoneName).run.value = .ok d) :
    ∀ m ∈ d.dates, m.fold = false := by
  intro m hm
  obtain ⟨clock, -, hread⟩ := lists_isRead hparse m (List.mem_append_left _ hm)
  exact hread.fold_eq

variable (hparse : (parse text zoneName).run.value = .ok d)

include hparse

/-- Further dates that come one before the other as their instants do are in the order of their
instants. -/
theorem dates_ordered_of_before
    (hbefore : ∀ a ∈ d.dates, ∀ b ∈ d.dates, a.before b = true ↔ a.instant < b.instant) :
    d.dates.Pairwise fun a b => a.instant ≤ b.instant := by
  obtain ⟨properties, -, hread⟩ := isRead_of_parse hparse
  obtain ⟨dates, excluded, -, hdates, -⟩ := hread.dates_eq
  rw [hdates] at hbefore ⊢
  refine Moment.sort_pairwise fun a ha b hb => ?_
  exact hbefore a (Moment.mem_sort.mpr ha) b (Moment.mem_sort.mpr hb)

/-- So it is with dates that are shown for the first time. -/
theorem dates_ordered (hshown : ∀ m ∈ d.dates, m.IsShownFirst ∧ m.clock.ShowsInOrder) :
    d.dates.Pairwise fun a b => a.instant ≤ b.instant := by
  have hknown := fun m hm => lists_isKnown hparse m (List.mem_append_left _ hm)
  refine dates_ordered_of_before hparse fun a ha b hb => ?_
  exact Moment.before_iff (hshown a ha).1 (hshown b hb).1
    ((hknown a ha).eq_of_same (hknown b hb)) (hshown a ha).2

/-- Further dates that agree are in the order of their instants, and no two of them have one
instant. -/
theorem dates_increasing_of_agrees (hagree : ∀ a ∈ d.dates, ∀ b ∈ d.dates, a.Agrees b) :
    d.dates.Pairwise fun a b => a.instant < b.instant := by
  have hfold := dates_fold hparse
  have hordered := dates_ordered_of_before hparse fun a ha b hb => (hagree a ha b hb).before
  obtain ⟨properties, -, hread⟩ := isRead_of_parse hparse
  obtain ⟨dates, excluded, -, hdates, -⟩ := hread.dates_eq
  have hdistinct : d.dates.Pairwise fun a b => ¬ a.coincides b := by
    rw [hdates]
    refine ((List.mergeSort_perm _ _).pairwise_iff ?_).mpr (Moment.distinct_pairwise dates).1
    intro a b h
    rwa [Moment.coincides_comm]
  refine (hordered.and hdistinct).imp_of_mem fun {a b} ha hb h => ?_
  obtain ⟨hle, hnot⟩ := h
  refine lt_of_le_of_ne hle fun heq => hnot ?_
  exact Moment.coincides_of_instant (hfold a ha) (hfold b hb) (hagree a ha b hb) heq

/-- Further dates that are shown once are so, too. -/
theorem dates_increasing (hshown : ∀ m ∈ d.dates, m.IsShownOnce ∧ m.clock.ShowsInOrder) :
    d.dates.Pairwise fun a b => a.instant < b.instant := by
  have hknown := fun m hm => lists_isKnown hparse m (List.mem_append_left _ hm)
  refine dates_increasing_of_agrees hparse fun a ha b hb => ?_
  exact Moment.agrees_of_isShownOnce (hshown a ha).1 (hshown b hb).1
    ((hknown a ha).eq_of_same (hknown b hb)) (hshown a ha).2

end Descriptor

/-- Counting from the place after a moment is counting the dates after it. -/
theorem Source.datesNth_eq {d : Descriptor} (h : d.dates.Pairwise fun a b => a.instant ≤ b.instant)
    (now : WallTime) (k : Nat) : datesNth d (Moment.universal now) k =
      ((d.dates.filter fun m => !m.isIn d.excluded).filter (Moment.universal now).before)[k]? := by
  refine place_getElem? ((h.filter _).imp fun {a b} hab hbefore => ?_) k
  rw [Moment.before_eq (.inl rfl), decide_eq_true_iff] at hbefore ⊢
  exact lt_of_lt_of_le hbefore hab

end ScanPolicy
