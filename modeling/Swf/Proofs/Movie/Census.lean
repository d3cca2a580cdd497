import Swf.Movie.Census
import Mathlib.Data.List.Induction
import Mathlib.Data.List.Perm.Basic

/-!
# What is counted in a movie

Frames and definitions are counted tag by tag, into a list that is kept in the order of its ids.
What such a list says is told by the count of each id (`IdCounts.countOf`), and of two lists in
order with the same counts there is only one (`IdCounts.eq_of_countOf`). So it is enough to follow
the counts through the movie: they are those of the tags (`Census.tallies_foldl`), and then the
order of the tags cannot matter.
-/

namespace Swf

namespace IdCounts

/-- How often a list says that `id` is defined. -/
def countOf (id : UInt16) : IdCounts → Nat
  | [] => 0
  | (other, count) :: rest => (if other = id then count else 0) + countOf id rest

theorem countOf_cons (id : UInt16) (entry : UInt16 × Nat) (rest : IdCounts) :
    countOf id (entry :: rest) = (if entry.1 = id then entry.2 else 0) + countOf id rest := rfl

/-- The ids ascend, and each of them is defined at least once. -/
structure InOrder (counts : IdCounts) : Prop where
  ascending : counts.Pairwise fun p q => p.1 < q.1
  positive : ∀ entry ∈ counts, 0 < entry.2

theorem InOrder.tail {entry : UInt16 × Nat} {rest : IdCounts} (h : InOrder (entry :: rest)) :
    InOrder rest :=
  ⟨h.ascending.tail, fun other hmem => h.positive other (List.mem_cons_of_mem _ hmem)⟩

/-! ## Reading a list -/

/-- An id below all those of a list is not defined. -/
theorem countOf_eq_zero {id : UInt16} {counts : IdCounts} (h : ∀ entry ∈ counts, id < entry.1) :
    countOf id counts = 0 := by
  induction counts with
  | nil => rfl
  | cons entry rest ih =>
    have hne : entry.1 ≠ id := by
      intro heq
      exact UInt16.lt_irrefl id (heq ▸ h entry (List.mem_cons_self ..))
    have hrest : countOf id rest = 0 := ih fun other hmem => h other (List.mem_cons_of_mem _ hmem)
    rw [countOf_cons, if_neg hne, hrest]

/-- **Reading.** A list in order has one entry for each id that is defined, with its count. -/
theorem mem_iff_countOf {id : UInt16} {n : Nat} {counts : IdCounts} (h : InOrder counts) :
    (id, n) ∈ counts ↔ n = countOf id counts ∧ 0 < n := by
  induction counts with
  | nil =>
    refine iff_of_false (List.not_mem_nil) ?_
    rintro ⟨rfl, hpos⟩
    exact Nat.lt_irrefl 0 hpos
  | cons entry rest ih =>
    obtain ⟨other, count⟩ := entry
    have hbelow := (List.pairwise_cons.mp h.ascending).1
    have hpos : 0 < count := h.positive (other, count) (List.mem_cons_self ..)
    rw [List.mem_cons, Prod.mk.injEq, ih h.tail, countOf_cons]
    by_cases hid : other = id
    · subst hid
      have hrest : countOf other rest = 0 := countOf_eq_zero hbelow
      rw [if_pos rfl, hrest]
      constructor
      · rintro (⟨-, rfl⟩ | ⟨rfl, hzero⟩)
        · exact ⟨rfl, hpos⟩
        · exact absurd hzero (Nat.lt_irrefl 0)
      · rintro ⟨rfl, -⟩
        exact .inl ⟨rfl, rfl⟩
    · rw [if_neg hid, Nat.zero_add]
      constructor
      · rintro (⟨rfl, -⟩ | hmem)
        · exact absurd rfl hid
        · exact hmem
      · exact .inr

/-- A list in order is told by its counts. -/
theorem eq_of_countOf {counts counts' : IdCounts} (h : InOrder counts) (h' : InOrder counts')
    (hcount : ∀ id, countOf id counts = countOf id counts') : counts = counts' := by
  have hnodup {counts : IdCounts} (h : InOrder counts) : counts.Nodup := by
    refine h.ascending.imp fun {p q} hlt heq => ?_
    subst heq
    exact UInt16.lt_irrefl _ hlt
  -- the entries are the same, and there is only one order for them
  have hperm : counts.Perm counts' := by
    rw [List.perm_ext_iff_of_nodup (hnodup h) (hnodup h')]
    rintro ⟨id, n⟩
    rw [mem_iff_countOf h, mem_iff_countOf h', hcount]
  exact hperm.eq_of_pairwise
    (fun _ _ _ _ hlt hgt => absurd hgt (UInt16.lt_asymm hlt)) h.ascending h'.ascending

/-! ## One more definition -/

theorem countOf_define (id other : UInt16) (counts : IdCounts) :
    countOf other (define id counts) = countOf other counts + if id = other then 1 else 0 := by
  induction counts with
  | nil => exact Nat.add_comm ..
  | cons entry rest ih =>
    unfold define
    split
    · -- a new entry in front
      rw [countOf_cons _ (id, 1), Nat.add_comm]
    · split
      · next heq =>
        rw [countOf_cons _ (entry.1, entry.2 + 1), countOf_cons, heq]
        split <;> omega
      · rw [countOf_cons _ (entry.1, entry.2), countOf_cons, ih, Nat.add_assoc]

/-- The ids of a list after one more definition. -/
theorem mem_define {id : UInt16} {entry : UInt16 × Nat} {counts : IdCounts}
    (h : entry ∈ define id counts) :
    (entry.1 = id ∧ 0 < entry.2) ∨ entry ∈ counts := by
  induction counts with
  | nil =>
    obtain rfl : entry = (id, 1) := List.mem_singleton.mp h
    exact .inl ⟨rfl, Nat.one_pos⟩
  | cons first rest ih =>
    unfold define at h
    split at h
    · rcases List.mem_cons.mp h with rfl | hmem
      · exact .inl ⟨rfl, Nat.one_pos⟩
      · exact .inr hmem
    · split at h
      · next heq =>
        rcases List.mem_cons.mp h with rfl | hmem
        · exact .inl ⟨heq.symm, Nat.succ_pos _⟩
        · exact .inr (List.mem_cons_of_mem _ hmem)
      · rcases List.mem_cons.mp h with rfl | hmem
        · exact .inr (List.mem_cons_self ..)
        · rcases ih hmem with hnew | hold
          · exact .inl hnew
          · exact .inr (List.mem_cons_of_mem _ hold)

/-- **A step** keeps the order. -/
theorem InOrder.define (id : UInt16) {counts : IdCounts} (h : InOrder counts) :
    InOrder (IdCounts.define id counts) := by
  refine ⟨?_, ?_⟩
  · induction counts with
    | nil => exact List.pairwise_singleton ..
    | cons first rest ih =>
      obtain ⟨hbelow, hrest⟩ := List.pairwise_cons.mp h.ascending
      unfold IdCounts.define
      split
      · next hlt =>
        refine List.pairwise_cons.mpr ⟨fun entry hmem => ?_, h.ascending⟩
        rcases List.mem_cons.mp hmem with rfl | hmem
        · exact hlt
        · exact UInt16.lt_trans hlt (hbelow entry hmem)
      · next hnlt =>
        split
        · exact List.pairwise_cons.mpr ⟨hbelow, hrest⟩
        · next hne =>
          -- the new id is above the first one, and so is all that was behind it
          have hlt : first.1 < id := by
            rw [UInt16.lt_iff_toNat_lt] at hnlt ⊢
            have hnat : id.toNat ≠ first.1.toNat := fun heq => hne (UInt16.toNat_inj.mp heq)
            omega
          refine List.pairwise_cons.mpr ⟨fun entry hmem => ?_, ih h.tail⟩
          rcases mem_define hmem with ⟨heq, -⟩ | hold
          · exact heq ▸ hlt
          · exact hbelow entry hold
  · intro entry hmem
    rcases mem_define hmem with ⟨-, hpos⟩ | hold
    · exact hpos
    · exact h.positive entry hold

end IdCounts

namespace Tag

/-- An image or embedded data with the id `id`. -/
def Defines (id : UInt16) (tag : Tag) : Prop :=
  (∃ image, tag = .defineBitsJpeg2 image ∧ image.characterId = id) ∨
    ∃ blob, tag = .defineBinaryData blob ∧ blob.characterId = id

theorem definedId?_eq_some_iff {id : UInt16} {tag : Tag} :
    tag.definedId? = some id ↔ tag.Defines id := by
  cases tag <;> simp [definedId?, Defines]

instance (id : UInt16) (tag : Tag) : Decidable (tag.Defines id) :=
  decidable_of_iff _ definedId?_eq_some_iff

end Tag

namespace Census

/-- What has been counted is what `tags` hold. -/
structure Tallies (census : Census) (tags : List Tag) : Prop where
  frames : census.frames = tags.count .showFrame
  inOrder : IdCounts.InOrder census.characters
  countOf : ∀ id, IdCounts.countOf id census.characters = tags.countP (Tag.Defines id)

theorem tallies_empty : Tallies {} [] where
  frames := rfl
  inOrder := ⟨.nil, fun _ h => absurd h List.not_mem_nil⟩
  countOf := fun _ => rfl

/-- **One more tag.** -/
theorem Tallies.add {census : Census} {tags : List Tag} (h : census.Tallies tags) (tag : Tag) :
    (census.add tag).Tallies (tags ++ [tag]) where
  frames := by
    rw [List.count_append, List.count_singleton, ← h.frames]
    unfold Census.add
    by_cases hshow : tag = .showFrame
    · simp [hshow]
    · simp [hshow]
  inOrder := by
    unfold Census.add
    cases tag.definedId? with
    | none => exact h.inOrder
    | some id => exact h.inOrder.define id
  countOf := by
    intro id
    have hdefines : tag.definedId? = some id ↔ tag.Defines id := Tag.definedId?_eq_some_iff
    rw [List.countP_append, List.countP_singleton, ← h.countOf id]
    unfold Census.add
    -- no tag defines more than one id
    cases hid : tag.definedId? with
    | none =>
      have hnot : ¬ tag.Defines id := fun hdef => by
        rw [← hdefines, hid] at hdef
        cases hdef
      simp [hnot]
    | some other =>
      have hiff : other = id ↔ tag.Defines id := by
        rw [← hdefines, hid, Option.some_inj]
      simp [IdCounts.countOf_define, hiff]

/-- **The whole movie.** -/
theorem tallies_foldl (tags : List Tag) : (tags.foldl Census.add {}).Tallies tags := by
  induction tags using List.reverseRecOn with
  | nil => exact tallies_empty
  | append_singleton tags tag ih =>
    rw [List.foldl_concat]
    exact ih.add tag

/-- A character is listed with the number of tags that define it, if there are any. -/
theorem Tallies.mem_characters {census : Census} {tags : List Tag} (h : census.Tallies tags)
    {id : UInt16} {n : Nat} :
    (id, n) ∈ census.characters ↔ n = tags.countP (Tag.Defines id) ∧ 0 < n := by
  rw [IdCounts.mem_iff_countOf h.inOrder, h.countOf]

/-- The duplicates are those that two tags define, or more. -/
theorem Tallies.mem_duplicateIds {census : Census} {tags : List Tag} (h : census.Tallies tags)
    {id : UInt16} : id ∈ census.duplicateIds ↔ 2 ≤ tags.countP (Tag.Defines id) := by
  constructor
  · intro hdup
    obtain ⟨⟨other, n⟩, hentry, rfl⟩ := List.mem_map.mp hdup
    obtain ⟨hentry, hmany⟩ := List.mem_filter.mp hentry
    have htwo : 1 < n := of_decide_eq_true hmany
    rw [← (h.mem_characters.mp hentry).1]
    exact htwo
  · intro htwo
    have hentry := h.mem_characters.mpr ⟨rfl, Nat.lt_of_lt_of_le Nat.two_pos htwo⟩
    have hmany := decide_eq_true (Nat.lt_of_lt_of_le Nat.one_lt_two htwo)
    exact List.mem_map.mpr ⟨_, List.mem_filter.mpr ⟨hentry, hmany⟩, rfl⟩

/-- What has been counted is told by the tags, in any order. -/
theorem Tallies.eq_of_perm {census census' : Census} {tags tags' : List Tag}
    (h : census.Tallies tags) (h' : census'.Tallies tags') (hperm : tags.Perm tags') :
    census = census' := by
  have hframes : census.frames = census'.frames := by
    rw [h.frames, h'.frames, hperm.count_eq]
  have hcharacters : census.characters = census'.characters := by
    refine IdCounts.eq_of_countOf h.inOrder h'.inOrder fun id => ?_
    rw [h.countOf, h'.countOf, hperm.countP_eq]
  cases census
  cases census'
  congr

end Census

namespace Movie

/-- The tag that ends a movie is not counted. -/
theorem tallies_census (m : Movie) : m.census.Tallies m.tags := by
  have h := Census.tallies_foldl m.visited
  refine ⟨?_, h.inOrder, fun id => ?_⟩
  · exact h.frames.trans (by simp [visited])
  · refine (h.countOf id).trans ?_
    simp [visited, Tag.Defines]

/-- The blocks of bytecode are the payloads of their tags. -/
theorem map_abcBlocks (m : Movie) :
    m.abcBlocks.map Tag.doAbc = m.tags.filter (·.kind? = some .doAbc) := by
  unfold abcBlocks
  induction m.tags with
  | nil => rfl
  | cons tag tags ih => cases tag <;> simp [Tag.kind?, ih]

/-- **The census** of a movie. Frames are counted by their tags and characters by the images and
embedded data with their ids, which are listed in ascending order, each once; those that are defined
twice or more are the duplicates. No count is larger than the number of tags. The blocks of bytecode
are found in their order, and for the counts the order of the tags does not matter. -/
theorem census_exact (m : Movie) :
    m.census.frames = m.tags.count .showFrame ∧
    m.census.characters.Pairwise (fun p q => p.1 < q.1) ∧
    (∀ id n, (id, n) ∈ m.census.characters ↔ n = m.tags.countP (Tag.Defines id) ∧ 0 < n) ∧
    m.census.duplicateIds.Pairwise (· < ·) ∧
    (∀ id, id ∈ m.census.duplicateIds ↔ 2 ≤ m.tags.countP (Tag.Defines id)) ∧
    (m.census.frames ≤ m.tags.length ∧
      ∀ entry ∈ m.census.characters, entry.2 ≤ m.tags.length) ∧
    m.abcBlocks.map Tag.doAbc = m.tags.filter (·.kind? = some .doAbc) ∧
    ∀ m' : Movie, m'.tags.Perm m.tags → m'.census = m.census := by
  have h := m.tallies_census
  refine ⟨h.frames, h.inOrder.ascending, fun id n => h.mem_characters, ?_,
    fun id => h.mem_duplicateIds, ⟨?_, ?_⟩, m.map_abcBlocks, ?_⟩
  · exact List.pairwise_map.mpr (h.inOrder.ascending.filter _)
  · rw [h.frames]
    exact List.count_le_length
  · intro entry hentry
    rw [(h.mem_characters.mp hentry).1]
    exact List.countP_le_length
  · exact fun m' hperm => m'.tallies_census.eq_of_perm h hperm

/-- One id is defined by tags of both kinds, and its scaling grid is not counted. -/
theorem census_exact_reversed :
    ∃ m m' : Movie, m.tags = [.defineBinaryData ⟨7, 0, []⟩, .showFrame, .defineScalingGrid ⟨7, {}⟩,
        .defineBitsJpeg2 ⟨7, []⟩, .doAbc ⟨0, "main", []⟩, .defineBinaryData ⟨3, 0, []⟩] ∧
      m'.tags.Perm m.tags ∧ m'.tags ≠ m.tags ∧ m'.census = m.census ∧
      m.census = { frames := 1, characters := [(3, 1), (7, 2)] } ∧ m.census.duplicateIds = [7] := by
  let m : Movie := { tags := [.defineBinaryData ⟨7, 0, []⟩, .showFrame, .defineScalingGrid ⟨7, {}⟩,
    .defineBitsJpeg2 ⟨7, []⟩, .doAbc ⟨0, "main", []⟩, .defineBinaryData ⟨3, 0, []⟩] }
  have hperm : ({ tags := m.tags.reverse } : Movie).tags.Perm m.tags := List.reverse_perm m.tags
  obtain ⟨-, -, -, -, -, -, -, hcensus⟩ := census_exact m
  exact ⟨m, { tags := m.tags.reverse }, rfl, hperm, by decide, hcensus _ hperm, by decide,
    by decide⟩

end Movie

end Swf
