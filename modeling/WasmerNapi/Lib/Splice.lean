import Mathlib

/-!
# Splicing replacements into a list

Ranges of a list, each with what is to stand there instead. They are cut in from the last to the
first, so that none of them moves a range that is still to come.

Ranges that do not meet can be seen as segments of the list, and what splicing gives is the
segments one after the other, each replaced or as it was: `spliceBack_replacements`. For ranges that
lie in one another there is only `take_spliceBack`: what stands before them all is left alone.
-/

namespace Splice

variable {α : Type*}

/-! ## Slices -/

/-- The place an index means in a list of length `n`: a negative one counts from the end. -/
def place (n : ℕ) (i : ℤ) : ℕ := if i < 0 then (n + i).toNat else i.toNat

@[simp] theorem place_natCast (n i : ℕ) : place n (i : ℤ) = i := by
  simp [place]

def sliceTo (l : List α) (i : ℤ) : List α := l.take (place l.length i)

def sliceFrom (l : List α) (i : ℤ) : List α := l.drop (place l.length i)

def slice (l : List α) (i j : ℤ) : List α :=
  (l.drop (place l.length i)).take (place l.length j - place l.length i)

@[simp] theorem sliceTo_natCast (l : List α) (i : ℕ) : sliceTo l i = l.take i := by
  simp [sliceTo]

@[simp] theorem sliceFrom_natCast (l : List α) (i : ℕ) : sliceFrom l i = l.drop i := by
  simp [sliceFrom]

variable {i j : ℤ}

/-- A slice is the middle of three. -/
theorem slice_append (before middle after : List α) (hi : i = before.length)
    (hj : j = before.length + middle.length) :
    slice (before ++ middle ++ after) i j = middle := by
  have hcast : j = ((before.length + middle.length : ℕ) : ℤ) := by rw [hj]; push_cast; rfl
  rw [slice, hi, hcast, place_natCast, place_natCast]
  simp [List.append_assoc]

/-! ## Replacements -/

structure Replacement (α : Type*) where
  start : ℤ
  stop : ℤ
  text : List α
  deriving DecidableEq

namespace Replacement

/-- `inner` lies within `outer`. -/
def Encloses (outer inner : Replacement α) : Prop :=
  outer.start ≤ inner.start ∧ inner.stop ≤ outer.stop

instance (outer inner : Replacement α) : Decidable (outer.Encloses inner) :=
  inferInstanceAs (Decidable (_ ∧ _))

theorem Encloses.trans {a b c : Replacement α} (hab : a.Encloses b) (hbc : b.Encloses c) :
    a.Encloses c :=
  ⟨hab.1.trans hbc.1, hbc.2.trans hab.2⟩

/-- `a` ends before `b` begins, and neither is empty. -/
structure Precedes (a b : Replacement α) : Prop where
  left : a.start < a.stop
  apart : a.stop ≤ b.start
  right : b.start < b.stop

theorem Precedes.not_encloses {a b : Replacement α} (h : a.Precedes b) :
    ¬ a.Encloses b ∧ ¬ b.Encloses a := by
  obtain ⟨ha, hab, hb⟩ := h
  constructor
  · intro henc
    have := henc.2
    omega
  · intro henc
    have := henc.1
    omega

def shift (r : Replacement α) (k : ℤ) : Replacement α :=
  { r with start := r.start - k, stop := r.stop - k }

end Replacement

def splice (source : List α) (r : Replacement α) : List α :=
  sliceTo source r.start ++ r.text ++ sliceFrom source r.stop

/-- One after the other, as they come. -/
def spliceAll (source : List α) (rs : List (Replacement α)) : List α := rs.foldl splice source

/-- The last one first, where `rs` is in the order of the list. -/
def spliceBack (rs : List (Replacement α)) (source : List α) : List α :=
  rs.foldr (fun r source => splice source r) source

@[simp] theorem spliceBack_nil (source : List α) : spliceBack [] source = source := rfl

@[simp] theorem spliceBack_cons (r : Replacement α) (rs : List (Replacement α)) (source : List α) :
    spliceBack (r :: rs) source = splice (spliceBack rs source) r := rfl

@[simp] theorem spliceBack_append (rs qs : List (Replacement α)) (source : List α) :
    spliceBack (rs ++ qs) source = spliceBack rs (spliceBack qs source) :=
  List.foldr_append

theorem spliceAll_reverse (source : List α) (rs : List (Replacement α)) :
    spliceAll source rs.reverse = spliceBack rs source :=
  List.foldl_reverse

variable {source : List α} {k : ℕ}

/-- What stands before a range is left alone. -/
theorem take_splice {r : Replacement α} (hr : (k : ℤ) ≤ r.start) (hk : k ≤ source.length) :
    (splice source r).take k = source.take k := by
  obtain ⟨n, hn⟩ := Int.eq_ofNat_of_zero_le (by omega : 0 ≤ r.start)
  have hkn : k ≤ n := by omega
  rw [splice, hn, List.append_assoc]
  simp only [sliceTo_natCast]
  rw [List.take_append_of_le_length (by rw [List.length_take]; omega), List.take_take,
    Nat.min_eq_left hkn]

theorem length_le_splice {r : Replacement α} (hr : (k : ℤ) ≤ r.start) (hk : k ≤ source.length) :
    k ≤ (splice source r).length := by
  have h : ((splice source r).take k).length = k := by
    rw [take_splice hr hk, List.length_take]
    omega
  rw [List.length_take] at h
  omega

variable {rs : List (Replacement α)}

theorem take_spliceBack (hrs : ∀ r ∈ rs, (k : ℤ) ≤ r.start) (hk : k ≤ source.length) :
    (spliceBack rs source).take k = source.take k ∧ k ≤ (spliceBack rs source).length := by
  induction rs with
  | nil => exact ⟨rfl, hk⟩
  | cons r rs ih =>
    obtain ⟨htake, hlen⟩ := ih fun q hq => hrs q (List.mem_cons_of_mem _ hq)
    have hr := hrs r List.mem_cons_self
    exact ⟨by rw [spliceBack_cons, take_splice hr hlen, htake], length_le_splice hr hlen⟩

/-- What stands before the ranges is the same after any of them. -/
theorem spliceBack_eq_append {before after : List α}
    (hrs : ∀ r ∈ rs, (before.length : ℤ) ≤ r.start) :
    ∃ rest, spliceBack rs (before ++ after) = before ++ rest := by
  have h := (take_spliceBack hrs (by simp : before.length ≤ (before ++ after).length)).1
  rw [List.take_left] at h
  exact ⟨_, by rw [← List.take_append_drop before.length (spliceBack rs _), h]⟩

/-- A range of a text whose beginning stands there. -/
theorem splice_append (before middle after text : List α) (hi : i = before.length)
    (hj : j = before.length + middle.length) :
    splice (before ++ (middle ++ after)) ⟨i, j, text⟩ = before ++ (text ++ after) := by
  have hcast : j = ((before.length + middle.length : ℕ) : ℤ) := by rw [hj]; push_cast; rfl
  rw [splice, hi, hcast, sliceTo_natCast, sliceFrom_natCast, List.take_left, ← List.append_assoc,
    ← List.length_append, List.drop_left, List.append_assoc]

/-- Where it ends may be anywhere: its beginning is where it says. -/
theorem splice_append_left (before after text : List α) (hi : i = before.length) :
    ∃ rest, splice (before ++ after) ⟨i, j, text⟩ = before ++ (text ++ rest) := by
  refine ⟨sliceFrom (before ++ after) j, ?_⟩
  rw [splice, hi, sliceTo_natCast, List.take_left, List.append_assoc]

/-! ## In descending order -/

/-- `sort((left, right) => right.start - left.start)` -/
def descending (rs : List (Replacement α)) : List (Replacement α) :=
  rs.insertionSort fun left right => right.start ≤ left.start

/-- However they come, replacements that start in different places are sorted alike. -/
theorem descending_eq_reverse {found : List (Replacement α)}
    (hrs : rs.Pairwise fun a b => a.start < b.start) (hfound : found.Perm rs) :
    descending found = rs.reverse := by
  let le := fun left right : Replacement α => right.start ≤ left.start
  have : Std.Total le := ⟨fun a b => le_total b.start a.start⟩
  have : IsTrans (Replacement α) le := ⟨fun _ _ _ hab hbc => hbc.trans hab⟩
  have hsorted : (descending found).Pairwise le := List.pairwise_insertionSort le found
  have hreverse : rs.reverse.Pairwise le := by
    rw [List.pairwise_reverse]
    exact hrs.imp fun h => h.le
  have hperm : (descending found).Perm rs.reverse :=
    ((List.perm_insertionSort le found).trans hfound).trans (List.reverse_perm rs).symm
  refine List.Perm.eq_of_pairwise ?_ hsorted hreverse hperm
  intro a b ha hb hab hba
  have hnodup : (rs.map Replacement.start).Nodup := by
    rw [List.nodup_iff_pairwise_ne, List.pairwise_map]
    exact hrs.imp fun h => h.ne
  exact List.inj_on_of_nodup_map hnodup (hfound.subset ((List.mem_insertionSort le).mp ha))
    (List.mem_reverse.mp hb) (le_antisymm hba hab)

/-! ## One not within another -/

/-- The loop that leaves out what lies within one it has kept. -/
def unenclosed (kept : List (Replacement α)) (rs : List (Replacement α)) : List (Replacement α) :=
  rs.foldl (fun kept r => if kept.any fun k => k.Encloses r then kept else kept ++ [r]) kept

@[simp] theorem unenclosed_nil (kept : List (Replacement α)) : unenclosed kept [] = kept := rfl

theorem unenclosed_cons (kept : List (Replacement α)) (r : Replacement α)
    (rs : List (Replacement α)) :
    unenclosed kept (r :: rs) =
      unenclosed (if kept.any fun k => k.Encloses r then kept else kept ++ [r]) rs := rfl

theorem unenclosed_append (kept rs qs : List (Replacement α)) :
    unenclosed kept (rs ++ qs) = unenclosed (unenclosed kept rs) qs :=
  List.foldl_append

theorem unenclosed_of_enclosed {kept : List (Replacement α)}
    (hrs : ∀ r ∈ rs, ∃ k ∈ kept, k.Encloses r) : unenclosed kept rs = kept := by
  induction rs with
  | nil => rfl
  | cons r rs ih =>
    have hany : (kept.any fun k => k.Encloses r) = true := by
      obtain ⟨k, hk, hkr⟩ := hrs r List.mem_cons_self
      exact List.any_eq_true.mpr ⟨k, hk, decide_eq_true hkr⟩
    rw [unenclosed_cons, if_pos hany]
    exact ih fun q hq => hrs q (List.mem_cons_of_mem _ hq)

/-- Groups that come with an outer one first: of each that is not within one of `kept`, the outer
    one is kept and those within it are not. -/
theorem unenclosed_groups {kept : List (Replacement α)}
    {groups : List (Replacement α × List (Replacement α))}
    (hwithin : ∀ g ∈ groups, ∀ r ∈ g.2, g.1.Encloses r)
    (hapart : groups.Pairwise fun g g' => ¬ g.1.Encloses g'.1) :
    unenclosed kept (groups.flatMap fun g => g.1 :: g.2) =
      kept ++ (groups.map Prod.fst).filter fun r => !kept.any fun k => k.Encloses r := by
  -- `kept` grows by outer ones of earlier groups, which none of the later ones lies within
  suffices h : ∀ more : List (Replacement α),
      (∀ k ∈ more, ∀ g ∈ groups, ¬ k.Encloses g.1) →
      unenclosed (kept ++ more) (groups.flatMap fun g => g.1 :: g.2) =
        kept ++ more ++ (groups.map Prod.fst).filter fun r => !kept.any fun k => k.Encloses r by
    simpa using h [] (by simp)
  induction groups with
  | nil => simp
  | cons g groups ih =>
    intro more hmore
    obtain ⟨hg, hapart⟩ := List.pairwise_cons.mp hapart
    have ih := ih (fun q hq => hwithin q (List.mem_cons_of_mem _ hq)) hapart
    have hmore' : ∀ k ∈ more, ∀ q ∈ groups, ¬ k.Encloses q.1 :=
      fun k hk q hq => hmore k hk q (List.mem_cons_of_mem _ hq)
    have hany : ((kept ++ more).any fun k => k.Encloses g.1) = kept.any fun k => k.Encloses g.1 := by
      have hnone : (more.any fun k => decide (k.Encloses g.1)) = false := by
        apply List.any_eq_false.mpr
        intro k hk
        simpa using hmore k hk g List.mem_cons_self
      rw [List.any_append, hnone, Bool.or_false]
    rw [List.flatMap_cons, List.cons_append, unenclosed_cons, hany, unenclosed_append,
      List.map_cons, List.filter_cons]
    cases hc : kept.any fun k => decide (k.Encloses g.1) with
    | true =>
      -- the outer one lies within one of `kept`, and what lies within it does too
      have hinner : ∀ r ∈ g.2, ∃ k ∈ kept ++ more, k.Encloses r := by
        intro r hr
        obtain ⟨k, hk, hkg⟩ := List.any_eq_true.mp hc
        exact ⟨k, List.mem_append_left _ hk,
          (of_decide_eq_true hkg).trans (hwithin g List.mem_cons_self r hr)⟩
      simp only [if_true, unenclosed_of_enclosed hinner, Bool.not_true]
      exact ih more hmore'
    | false =>
      have hinner : ∀ r ∈ g.2, ∃ k ∈ kept ++ more ++ [g.1], k.Encloses r :=
        fun r hr => ⟨g.1, by simp, hwithin g List.mem_cons_self r hr⟩
      simp only [Bool.false_eq_true, if_false, unenclosed_of_enclosed hinner, Bool.not_false,
        if_true]
      rw [List.append_assoc, ih (more ++ [g.1])]
      · simp
      · intro k hk q hq
        rcases List.mem_append.mp hk with hk | hk
        · exact hmore' k hk q hq
        · rw [List.mem_singleton.mp hk]
          exact hg q hq

/-! ## None that meets the one before -/

/-- The loop that passes over a replacement that reaches into the one it cut in last. -/
def spliceApart : List α → ℤ → List (Replacement α) → List α
  | body, _, [] => body
  | body, replacedStart, r :: rs =>
    if r.stop > replacedStart then spliceApart body replacedStart rs
    else spliceApart (splice body r) r.start rs

/-- Of ranges that do not meet it passes over none. -/
theorem spliceApart_of_precedes {body : List α} {replacedStart : ℤ}
    (hrs : rs.Pairwise fun a b => b.Precedes a) (hstart : ∀ r ∈ rs, r.stop ≤ replacedStart) :
    spliceApart body replacedStart rs = spliceAll body rs := by
  induction rs generalizing body replacedStart with
  | nil => rfl
  | cons r rs ih =>
    obtain ⟨hr, hrs⟩ := List.pairwise_cons.mp hrs
    have hstop : ¬ r.stop > replacedStart := not_lt.mpr (hstart r List.mem_cons_self)
    rw [spliceApart, if_neg hstop, ih hrs fun q hq => (hr q hq).apart]
    rfl

/-! ## Segments -/

/-- A stretch of the list, and what replaces it. -/
structure Segment (α : Type*) where
  raw : List α
  text : Option (List α)

namespace Segment

def result (s : Segment α) : List α := s.text.getD s.raw

def raws (segments : List (Segment α)) : List α := segments.flatMap raw

def results (segments : List (Segment α)) : List α := segments.flatMap result

@[simp] theorem raws_nil : raws ([] : List (Segment α)) = [] := rfl

@[simp] theorem results_nil : results ([] : List (Segment α)) = [] := rfl

@[simp] theorem raws_cons (s : Segment α) (rest : List (Segment α)) :
    raws (s :: rest) = s.raw ++ raws rest := rfl

@[simp] theorem results_cons (s : Segment α) (rest : List (Segment α)) :
    results (s :: rest) = s.result ++ results rest := rfl

@[simp] theorem raws_append (a b : List (Segment α)) : raws (a ++ b) = raws a ++ raws b :=
  List.flatMap_append

@[simp] theorem results_append (a b : List (Segment α)) :
    results (a ++ b) = results a ++ results b :=
  List.flatMap_append

/-- The replacements, where the first segment begins at `base`. -/
def replacements : ℕ → List (Segment α) → List (Replacement α)
  | _, [] => []
  | base, s :: rest =>
    (s.text.map fun text => ⟨base, base + s.raw.length, text⟩).toList ++
      replacements (base + s.raw.length) rest

theorem replacements_append (base : ℕ) (a b : List (Segment α)) :
    replacements base (a ++ b) = replacements base a ++ replacements (base + (raws a).length) b := by
  induction a generalizing base with
  | nil => simp [replacements, raws]
  | cons s a ih => simp [replacements, ih, Nat.add_assoc]

/-- What is replaced is there to be replaced. -/
def Proper (segments : List (Segment α)) : Prop := ∀ s ∈ segments, s.text.isSome → s.raw ≠ []

variable {base : ℕ} {segments : List (Segment α)}

theorem within_replacements {r : Replacement α} (hr : r ∈ replacements base segments) :
    (base : ℤ) ≤ r.start ∧ r.stop ≤ base + (raws segments).length := by
  induction segments generalizing base with
  | nil => exact absurd hr List.not_mem_nil
  | cons s rest ih =>
    rw [raws_cons, List.length_append]
    rcases List.mem_append.mp hr with hr | hr
    · obtain ⟨text, -, rfl⟩ := Option.map_eq_some_iff.mp (Option.mem_toList.mp hr)
      constructor
      · exact le_refl _
      · push_cast
        omega
    · have h := ih hr
      push_cast at h ⊢
      omega

theorem nonempty_replacements (hp : Proper segments) :
    ∀ r ∈ replacements base segments, r.start < r.stop := by
  induction segments generalizing base with
  | nil => exact fun r hr => absurd hr List.not_mem_nil
  | cons s rest ih =>
    intro r hr
    rcases List.mem_append.mp hr with hr | hr
    · obtain ⟨text, htext, rfl⟩ := Option.map_eq_some_iff.mp (Option.mem_toList.mp hr)
      have hraw : 0 < s.raw.length :=
        List.length_pos_iff.mpr (hp s List.mem_cons_self (by rw [htext]; rfl))
      simp only
      omega
    · exact ih (fun q hq => hp q (List.mem_cons_of_mem _ hq)) r hr

/-- The replacements of segments do not meet, and come in order. -/
theorem precedes_replacements (hp : Proper segments) :
    (replacements base segments).Pairwise Replacement.Precedes := by
  induction segments generalizing base with
  | nil => exact List.Pairwise.nil
  | cons s rest ih =>
    have hrest : (replacements (base + s.raw.length) rest).Pairwise Replacement.Precedes :=
      ih fun q hq => hp q (List.mem_cons_of_mem _ hq)
    have hs := hp s List.mem_cons_self
    rw [replacements]
    cases htext : s.text with
    | none => exact hrest
    | some text =>
      refine List.pairwise_cons.mpr ⟨?_, hrest⟩
      intro r hr
      have hraw : 0 < s.raw.length := List.length_pos_iff.mpr (hs (by rw [htext]; rfl))
      have h := (within_replacements hr).1
      push_cast at h
      refine ⟨?_, h, nonempty_replacements (fun q hq => hp q (List.mem_cons_of_mem _ hq)) r hr⟩
      simp only
      omega

/-- However they come, none of them encloses another. -/
theorem not_encloses_of_perm (hp : Proper segments) {found : List (Replacement α)}
    (hfound : found.Perm (replacements base segments)) :
    found.Pairwise fun a b => ¬ a.Encloses b := by
  have happart : (replacements base segments).Pairwise
      fun a b => ¬ a.Encloses b ∧ ¬ b.Encloses a :=
    (precedes_replacements hp).imp fun h => h.not_encloses
  refine (hfound.symm.pairwise happart ?_).imp fun h => h.1
  exact fun h => h.symm

theorem spliceBack_replacements (before after : List α) (segments : List (Segment α)) :
    spliceBack (replacements before.length segments) (before ++ (raws segments ++ after)) =
      before ++ (results segments ++ after) := by
  induction segments generalizing before with
  | nil => rfl
  | cons s rest ih =>
    have hrest := ih (before ++ s.raw)
    rw [List.length_append, List.append_assoc, List.append_assoc] at hrest
    rw [replacements, spliceBack_append, raws_cons, List.append_assoc, hrest, results_cons, result]
    cases s.text with
    | none => simp
    | some text =>
      simp only [Option.map_some, Option.toList_some, spliceBack_cons, spliceBack_nil,
        Option.getD_some]
      rw [splice_append _ _ _ _ rfl rfl, List.append_assoc]

/-- However the replacements of segments come, splicing them in gives the segments' results. -/
theorem spliceApart_descending (hp : Proper segments) {found : List (Replacement α)}
    (hfound : found.Perm (replacements 0 segments)) :
    spliceApart (raws segments) ((raws segments).length + 1) (descending found) =
      results segments := by
  have hprecedes : (replacements 0 segments).Pairwise Replacement.Precedes :=
    precedes_replacements hp
  have hstarts : (replacements 0 segments).Pairwise fun a b => a.start < b.start :=
    hprecedes.imp fun h => h.left.trans_le h.apart
  rw [descending_eq_reverse hstarts hfound, spliceApart_of_precedes, spliceAll_reverse]
  · simpa using spliceBack_replacements [] [] segments
  · exact List.pairwise_reverse.mpr hprecedes
  · intro r hr
    have h := (within_replacements (List.mem_reverse.mp hr)).2
    push_cast at h
    omega

end Segment

end Splice
