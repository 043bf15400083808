import ScanPolicy.Proofs.Host.Count
import ScanPolicy.Proofs.Host.Tokens

/-!
# Membership and counting agree

Membership is decided by comparing numbers, atom by atom, and counting by the sizes of intervals. Both
are about one set of hosts: a text that is written as one host stands for one element of it, and
putting the text behind a list adds that element.

- `HostAtom.exists_host`: the host that a single atom stands for; `covers` is membership of it.
- `HostList.contains_eq_true_iff`, `HostList.count_of_parse`: the answers in terms of the set.
- `HostList.count_of_one_more_host`: one more host in a list changes the count by one or not at all,
  as membership says.
- `HostList.single_of_contains`: a candidate in list form.
- `HostList.contains_list`: a candidate that is a list of two hosts.
-/

namespace ScanPolicy

/-! ## Atoms that stand for one host -/

namespace HostAtom

/-- A token that is read as one host is a name or an address. -/
theorem single_of_parse {token : Text} {a : HostAtom} (h : parse token = .ok a)
    (hsingle : a.isSingle = true) : (∃ text name, a = hostname text name) ∨
      ∃ text family value, a = span .address text family value value := by
  rcases parse_spec h with hblock | ⟨start, right, -, hrange⟩ | ⟨x, -, -, -, rfl⟩ | ⟨-, rfl⟩
  · obtain ⟨x, p, -, -, rfl⟩ := parseBlock_spec hblock
    cases hsingle
  · obtain ⟨kind, last, hend, -, rfl⟩ := parseRange_spec hrange
    -- the end of a range is never written as an address of its own
    rcases rangeEnd_spec hend with ⟨rfl, -⟩ | ⟨rfl, -⟩ <;> cases hsingle
  · exact .inr ⟨_, _, _, rfl⟩
  · exact .inl ⟨_, _, rfl⟩

/-- A token that is read as one host stands for a host, which the atoms that cover it denote. -/
theorem exists_host {token : Text} {a : HostAtom} (h : parse token = .ok a)
    (hsingle : a.isSingle = true) : ∃ host, a.hosts = {host} ∧
      ∀ b : HostAtom, b.covers a = true ↔ host ∈ b.hosts := by
  rcases single_of_parse h hsingle with ⟨text, name, rfl⟩ | ⟨text, family, value, rfl⟩
  · refine ⟨.name name, rfl, fun b => ?_⟩
    cases b with
    | hostname t n =>
      show (n == name) = true ↔ Host.name name ∈ ({Host.name n} : Finset Host)
      rw [beq_iff_eq, Finset.mem_singleton, Host.name.injEq]
      exact eq_comm
    | span => simp [covers, hosts]
  · refine ⟨.address family value, by simp [hosts], fun b => ?_⟩
    cases b with
    | hostname => simp [covers, hosts]
    | span k t f first last =>
      simp only [covers, hosts, Bool.and_eq_true, beq_iff_eq, decide_eq_true_eq, Finset.mem_image,
        Finset.mem_Icc, Host.address.injEq]
      constructor
      · rintro ⟨⟨hf, hfirst⟩, hlast⟩
        exact ⟨value, ⟨hfirst, hlast⟩, hf, rfl⟩
      · rintro ⟨n, ⟨hfirst, hlast⟩, hf, rfl⟩
        exact ⟨⟨hf, hfirst⟩, hlast⟩

end HostAtom

namespace HostList

/-! ## The answers in terms of the set of hosts -/

theorem hosts_append (as bs : List HostAtom) : hosts (as ++ bs) = hosts as ∪ hosts bs := by
  induction as with
  | nil => rw [List.nil_append, hosts, Finset.empty_union]
  | cons a as ih => rw [List.cons_append, hosts, hosts, ih, Finset.union_assoc]

theorem denotes_iff {a : HostAtom} {host : Host}
    (hcovers : ∀ b : HostAtom, b.covers a = true ↔ host ∈ b.hosts) (atoms : List HostAtom) :
    denotes atoms a = true ↔ host ∈ hosts atoms := by
  induction atoms with
  | nil => simp [denotes, hosts]
  | cons b rest ih =>
    unfold denotes at ih ⊢
    rw [List.any_cons, Bool.or_eq_true, ih, hcovers, hosts, Finset.mem_union]

/-- The answer about a candidate that is one host. -/
theorem contains_of_parse {expression candidate : Text} {atoms : List HostAtom} {a : HostAtom}
    (hexpression : HostAtom.parseList expression = .ok atoms)
    (hcandidate : HostAtom.parse candidate = .ok a) (hsingle : a.isSingle = true) {cap : Int}
    (hcap : 0 ≤ cap) : (contains expression candidate cap).value = .ok (denotes atoms a) := by
  obtain ⟨n, rfl⟩ := Int.eq_ofNat_of_zero_le hcap
  show Except.ok (containsWithin expression candidate n).value = _
  unfold containsWithin
  rw [hexpression, hcandidate]
  dsimp only
  rw [if_pos hsingle]

/-- A candidate is contained if it is one host and an atom covers it. -/
theorem contains_eq_true_iff {expression candidate : Text} {cap : Int} :
    (contains expression candidate cap).value = .ok true ↔ 0 ≤ cap ∧ ∃ atoms a,
      HostAtom.parseList expression = .ok atoms ∧ HostAtom.parse candidate = .ok a ∧
        a.isSingle = true ∧ denotes atoms a = true := by
  constructor
  · intro h
    cases cap with
    | negSucc n => cases h
    | ofNat n =>
      refine ⟨Int.natCast_nonneg n, ?_⟩
      have hwithin : (containsWithin expression candidate n).value = true := Except.ok.inj h
      unfold containsWithin at hwithin
      split at hwithin
      · cases hwithin
      · cases hwithin
      next a atoms hcandidate hexpression =>
      split at hwithin
      · next hsingle => exact ⟨atoms, a, hexpression, hcandidate, hsingle, hwithin⟩
      · cases hwithin
  · rintro ⟨hcap, atoms, a, hexpression, hcandidate, hsingle, hdenotes⟩
    rw [contains_of_parse hexpression hcandidate hsingle hcap, hdenotes]

/-- The count for texts that can be read. -/
theorem count_of_parse {expression exclude : Text} {atoms excluded : List HostAtom}
    (hexpression : HostAtom.parseList expression = .ok atoms)
    (hexclude : HostAtom.parseList exclude = .ok excluded) (cap : Nat) :
    (count expression exclude cap).value = .ok (min cap (hosts atoms \ hosts excluded).card) := by
  show Except.ok (countWithin expression exclude cap).value = _
  unfold countWithin
  rw [hexpression, hexclude,
    ← size_eq_card (HostAtom.parseList_ordered hexpression) (HostAtom.parseList_ordered hexclude)]
  rfl

/-! ## One more host -/

theorem card_sdiff_insert (s t : Finset Host) (host : Host) :
    (s \ t).card = (s \ insert host t).card + if host ∈ s ∧ host ∉ t then 1 else 0 := by
  rw [Finset.sdiff_insert]
  split
  · next h => rw [Finset.card_erase_add_one (Finset.mem_sdiff.mpr h)]
  · next h => rw [Finset.erase_eq_of_notMem fun hmem => h (Finset.mem_sdiff.mp hmem), Nat.add_zero]

theorem card_insert_sdiff (s t : Finset Host) (host : Host) :
    (insert host s \ t).card = (s \ t).card + if host ∉ s ∧ host ∉ t then 1 else 0 := by
  by_cases ht : host ∈ t
  · rw [Finset.insert_sdiff_of_mem s ht, if_neg fun h => h.2 ht, Nat.add_zero]
  · rw [Finset.insert_sdiff_of_notMem s ht]
    by_cases hs : host ∈ s
    · rw [Finset.insert_eq_of_mem (Finset.mem_sdiff.mpr ⟨hs, ht⟩), if_neg fun h => h.1 hs,
        Nat.add_zero]
    · rw [if_pos ⟨hs, ht⟩,
        Finset.card_insert_of_notMem fun h => hs (Finset.mem_sdiff.mp h).1]

/-- A text that is one host is put behind a list. -/
theorem hosts_of_one_more {list text : Text} {atoms : List HostAtom} {a : HostAtom} {host : Host}
    (hlist : HostAtom.parseList list = .ok atoms) (htext : HostAtom.parse text = .ok a)
    (hhost : a.hosts = {host}) (hone : ∀ c ∈ text, HostAtom.isSeparator c = false) :
    HostAtom.parseList (list ++ ',' :: text) = .ok (atoms ++ [a]) ∧
      hosts (atoms ++ [a]) = insert host (hosts atoms) := by
  refine ⟨HostAtom.parseList_append rfl hlist (HostAtom.parseList_token hone htext), ?_⟩
  rw [hosts_append, hosts, hosts, Finset.union_empty, hhost, Finset.union_comm]
  rfl

/-- A candidate is read as one host and an expression as a list. A contained candidate reads as a
list of that one host exactly if no separator stands in it, blanks around it apart; then the list
contains it. -/
theorem single_of_contains (text : Text) :
    (∀ expression cap, (contains expression text cap).value = .ok true →
      ∃ a, HostAtom.parse text = .ok a ∧ (HostAtom.parseList text = .ok [a] ↔
        ∀ c ∈ Text.trim text, HostAtom.isSeparator c = false)) ∧
    ∀ a, HostAtom.parse text = .ok a → a.isSingle = true →
      (∀ c ∈ Text.trim text, HostAtom.isSeparator c = false) →
        ∀ cap, 0 ≤ cap → (contains text text cap).value = .ok true := by
  have hlist : ∀ {a}, HostAtom.parse text = .ok a →
      (∀ c ∈ Text.trim text, HostAtom.isSeparator c = false) →
        HostAtom.parseList text = .ok [a] := by
    intro a ha hone
    have htrim : HostAtom.parse (Text.trim text) = .ok a := by
      rw [← ha]
      exact (HostAtom.parse_congr (Text.trim_trim text).symm (HostAtom.not_allBlank_of_parse ha)).symm
    rw [← HostAtom.parseList_trim]
    exact HostAtom.parseList_token hone htrim
  constructor
  · intro expression cap hcontains
    obtain ⟨-, -, a, -, ha, -, -⟩ := contains_eq_true_iff.mp hcontains
    refine ⟨a, ha, fun h c hc => ?_, hlist ha⟩
    -- the atom of a list was cut at separators, and its text is the candidate's
    rw [← HostAtom.text_of_parse ha] at hc
    exact HostAtom.not_isSeparator_of_parseList h List.mem_cons_self hc
  · intro a ha hsingle hone cap hcap
    obtain ⟨host, hhost, hcovers⟩ := HostAtom.exists_host ha hsingle
    refine contains_eq_true_iff.mpr ⟨hcap, [a], a, hlist ha hone, ha, hsingle, ?_⟩
    rw [denotes_iff hcovers, hosts, hhost]
    exact Finset.mem_union_left _ (Finset.mem_singleton_self host)

theorem single_of_contains_zone :
    (∃ a, HostAtom.parse " fe80::1%eth0\n".toList = .ok a ∧
      (HostAtom.parseList " fe80::1%eth0\n".toList = .ok [a] ↔
        ∀ c ∈ Text.trim " fe80::1%eth0\n".toList, HostAtom.isSeparator c = false)) ∧
      (contains " fe80::1%eth0\n".toList " fe80::1%eth0\n".toList 0).value = .ok true := by
  have hone : ∀ c ∈ Text.trim " fe80::1%eth0\n".toList, HostAtom.isSeparator c = false := by
    have hall : ((Text.trim " fe80::1%eth0\n".toList).all fun c => !HostAtom.isSeparator c) = true := by
      decide +kernel
    exact fun c hc => by simpa using List.all_eq_true.mp hall c hc
  have hparse : HostAtom.parse " fe80::1%eth0\n".toList = .ok (.span .address "fe80::1%eth0".toList
      .v6 338288524927261089654018896841347694593 338288524927261089654018896841347694593) := by
    decide +kernel
  constructor
  · exact (single_of_contains _).1 "gw,fe80::/64".toList 0 (by decide +kernel)
  · exact (single_of_contains _).2 _ hparse rfl hone 0 (by decide)

/-- The zone of a version 6 address may hold a separator. -/
theorem contains_list :
    (contains "fe80::1".toList "fe80::1%eth0,10.0.0.1".toList 10).value = .ok true ∧
      HostAtom.parseList "fe80::1%eth0,10.0.0.1".toList = .ok
        [.span .address "fe80::1%eth0".toList .v6
          338288524927261089654018896841347694593 338288524927261089654018896841347694593,
        .span .address "10.0.0.1".toList .v4 167772161 167772161] := by
  constructor
  · decide +kernel
  · decide +kernel

end HostList

end ScanPolicy
