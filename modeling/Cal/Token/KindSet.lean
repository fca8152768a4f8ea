import Cal.Token.Kind

/-!
# Sets of kinds

A set of token kinds is its members in ascending order, so that two sets with the same members
are equal and a diagnostic lists each kind once and always in the same place.
-/

namespace Cal

/-- A set of token kinds, as the ascending list of its members. -/
structure KindSet where
  kinds : List TokenKind
  ascending : kinds.Pairwise (· < ·)
deriving DecidableEq

namespace KindSet

instance : Membership TokenKind KindSet := ⟨fun s kind => kind ∈ s.kinds⟩

instance (kind : TokenKind) (s : KindSet) : Decidable (kind ∈ s) :=
  inferInstanceAs (Decidable (kind ∈ s.kinds))

/-- The set of the kinds in a list, which may repeat and be in any order. -/
def ofList (kinds : List TokenKind) : KindSet :=
  ⟨TokenKind.all.filter (· ∈ kinds), TokenKind.all_ascending.filter _⟩

/-- The number of kinds in a set. -/
def size (s : KindSet) : Nat := s.kinds.length

/-- The set with one kind added. -/
def insert (s : KindSet) (kind : TokenKind) : KindSet := ofList (kind :: s.kinds)

theorem mem_iff {kind : TokenKind} {s : KindSet} : kind ∈ s ↔ kind ∈ s.kinds := Iff.rfl

@[simp]
theorem mem_ofList {kind : TokenKind} {kinds : List TokenKind} :
    kind ∈ ofList kinds ↔ kind ∈ kinds := by
  simp [mem_iff, ofList, TokenKind.mem_all]

@[simp]
theorem mem_insert {s : KindSet} {kind other : TokenKind} :
    kind ∈ s.insert other ↔ kind = other ∨ kind ∈ s := by
  rw [insert, mem_ofList, List.mem_cons, mem_iff]

/-- Sets with the same members are equal. -/
@[ext]
theorem ext {s t : KindSet} (h : ∀ kind, kind ∈ s ↔ kind ∈ t) : s = t := by
  obtain ⟨kinds, hkinds⟩ := s
  obtain ⟨others, hothers⟩ := t
  have hnodup {kinds : List TokenKind} (hkinds : kinds.Pairwise (· < ·)) : kinds.Nodup := by
    refine hkinds.imp ?_
    rintro kind _ hlt rfl
    exact Nat.lt_irrefl _ hlt
  have hperm : kinds.Perm others :=
    (List.perm_ext_iff_of_nodup (hnodup hkinds) (hnodup hothers)).2 h
  have hsame : kinds = others := by
    refine hperm.eq_of_pairwise (fun kind other _ _ hlt hgt => ?_) hkinds hothers
    exact absurd (Nat.lt_trans hlt hgt) (Nat.lt_irrefl _)
  subst hsame
  rfl

end KindSet

end Cal
