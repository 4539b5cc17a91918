import WasmerNapi.Lib.Table
import WasmerNapi.Quickjs.Hints

/-!
# Who owns a hint

A live hint has one owner at a time, who will see to its end: an object that carries it, a
frame whose callback is running and that destroys it afterwards (`Frame.owns`), or, for a
buffer that let go of its memory while the env is being released, the pending list.

Between two calls an operation of the source has taken a hint from one owner and not yet
given it to the next. So `Owned` is about a list of frames of its own: the frame the operation
is about to push, or to finish without pushing, in front of the stack.
-/

namespace WasmerNapi.Quickjs.Hints

open Function (update update_self update_of_ne)
open List (mem_cons forall_mem_cons countP_cons mem_cons_of_mem mem_cons_self)
open Run State

/-- The frames that destroy their hint. -/
def Frame.owns (h : ℕ) : Frame → Bool
  | .finalizer h' => h' = h
  | .release h' _ => h' = h
  | .teardown h' released => released && h' = h
  | .hook | .wrapFailed _ | .preparing _ => false

/-- Who sees to the end of each hint. -/
structure Owned (s : State) (fs : List Frame) : Prop where
  fresh : ∀ o, s.nextObject ≤ o → s.objects o = none
  live : ∀ o h, s.hintOf o = some h → ∃ x, s.hints h = some x
  /-- A carrier is the only owner, unless it is being detached. -/
  alone : ∀ o h x, s.hintOf o = some h → s.hints h = some x →
    .release h (some o) ∈ fs ∨ x.released = false ∧ ∀ k ∈ fs, k.owns h = false
  unique : ∀ o o' h, s.hintOf o = some h → s.hintOf o' = some h → o = o'
  framed : ∀ k ∈ fs, ∀ h, k.owns h = true → ∃ x, s.hints h = some x
  single : ∀ h, fs.countP (Frame.owns h) ≤ 1
  detached : ∀ h b, .release h (some b) ∈ fs →
    (∀ x, s.hints h = some x → x.released = true) ∧
      ∃ hint, s.objects b = some ⟨.buffer, hint⟩ ∧ (hint = none ∨ hint = some h)
  owner : ∀ h x, s.hints h = some x →
    (∃ o, s.hintOf o = some h) ∨ (∃ k ∈ fs, k.owns h = true) ∨
      x.released = true ∧ h ∈ s.pendingFinalizers ∧ s.closing = true
  tracked : ∀ h x b, s.hints h = some x → x.arrayBuffer = some b →
    ∃ hint, s.objects b = some ⟨.buffer, hint⟩ ∧ (hint = none ∨ hint = some h)

/-! ## Frames that own nothing -/

/-- Nothing changes that owners and hints are about, but that a release may begin. -/
theorem Owned.of_eq {s t : State} {fs : List Frame} (ho : Owned s fs) (hhints : t.hints = s.hints)
    (hobjects : t.objects = s.objects) (hnext : t.nextObject = s.nextObject)
    (hpending : t.pendingFinalizers = s.pendingFinalizers)
    (hclosing : s.closing = true → t.closing = true) : Owned t fs := by
  have hof : t.hintOf = s.hintOf := by
    unfold State.hintOf
    rw [hobjects]
  constructor
  · rw [hnext, hobjects]
    exact ho.fresh
  · rw [hof, hhints]
    exact ho.live
  · rw [hof, hhints]
    exact ho.alone
  · rw [hof]
    exact ho.unique
  · rw [hhints]
    exact ho.framed
  · exact ho.single
  · rw [hhints, hobjects]
    exact ho.detached
  · rw [hhints, hof, hpending]
    intro h x hx
    exact (ho.owner h x hx).imp_right fun hor => hor.imp_right fun hdef =>
      ⟨hdef.1, hdef.2.1, hclosing hdef.2.2⟩
  · rw [hhints, hobjects]
    exact ho.tracked

theorem Owned.cons_idle {s : State} {fs : List Frame} {k : Frame} (hk : ∀ h, k.owns h = false) :
    Owned s (k :: fs) ↔ Owned s fs := by
  have hne : ∀ h o, Frame.release h (some o) ≠ k := by
    rintro h o rfl
    have := hk h
    simp [Frame.owns] at this
  have hmem : ∀ h o, Frame.release h (some o) ∈ k :: fs ↔ Frame.release h (some o) ∈ fs := by
    intro h o
    rw [mem_cons, or_iff_right (hne h o)]
  have hall : ∀ h, (∀ k' ∈ k :: fs, k'.owns h = false) ↔ ∀ k' ∈ fs, k'.owns h = false := by
    intro h
    rw [forall_mem_cons, and_iff_right (hk h)]
  have hex : ∀ h, (∃ k' ∈ k :: fs, k'.owns h = true) ↔ ∃ k' ∈ fs, k'.owns h = true := by
    intro h
    rw [List.exists_mem_cons_iff, hk h, or_iff_right Bool.false_ne_true]
  have hcount : ∀ h, (k :: fs).countP (Frame.owns h) = fs.countP (Frame.owns h) := by
    intro h
    rw [countP_cons, hk h]
    rfl
  constructor
  · intro ho
    refine ⟨ho.fresh, ho.live, ?_, ho.unique, ?_, ?_, ?_, ?_, ho.tracked⟩
    · intro o h x hh hx
      rw [← hmem h o, ← hall h]
      exact ho.alone o h x hh hx
    · intro k' hk'
      exact ho.framed k' (mem_cons_of_mem _ hk')
    · intro h
      rw [← hcount h]
      exact ho.single h
    · intro h b hb
      exact ho.detached h b (mem_cons_of_mem _ hb)
    · intro h x hx
      rw [← hex h]
      exact ho.owner h x hx
  · intro ho
    refine ⟨ho.fresh, ho.live, ?_, ho.unique, ?_, ?_, ?_, ?_, ho.tracked⟩
    · intro o h x hh hx
      rw [hmem h o, hall h]
      exact ho.alone o h x hh hx
    · intro k' hk' h hown
      rcases mem_cons.mp hk' with rfl | hk'
      · rw [hk h] at hown
        cases hown
      · exact ho.framed k' hk' h hown
    · intro h
      rw [hcount h]
      exact ho.single h
    · intro h b hb
      exact ho.detached h b ((hmem h b).mp hb)
    · intro h x hx
      rw [hex h]
      exact ho.owner h x hx

/-! ## Handing a hint on

`.finalizer h` stands for whoever has `h` in between. -/

section

variable {s : State} {fs : List Frame} {h : ℕ}

/-- Two owners of the same hint that hold no buffer. -/
theorem Owned.swap {k k' : Frame} (hown : ∀ h, k.owns h = k'.owns h)
    (hk : ∀ h b, k ≠ .release h (some b)) (hk' : ∀ h b, k' ≠ .release h (some b))
    (ho : Owned s (k :: fs)) : Owned s (k' :: fs) := by
  have hmem : ∀ h b, Frame.release h (some b) ∈ k :: fs ↔ Frame.release h (some b) ∈ k' :: fs := by
    intro h b
    rw [mem_cons, mem_cons, or_iff_right (hk h b).symm, or_iff_right (hk' h b).symm]
  refine ⟨ho.fresh, ho.live, ?_, ho.unique, ?_, ?_, ?_, ?_, ho.tracked⟩
  · intro o h x hh hx
    have := ho.alone o h x hh hx
    rw [hmem h o, forall_mem_cons, hown h] at this
    rw [forall_mem_cons]
    exact this
  · rw [forall_mem_cons]
    have := forall_mem_cons.mp ho.framed
    refine ⟨?_, this.2⟩
    intro h hh
    exact this.1 h ((hown h).trans hh)
  · intro h
    rw [countP_cons, ← hown h, ← countP_cons]
    exact ho.single h
  · intro h b hb
    exact ho.detached h b ((hmem h b).mpr hb)
  · intro h x hx
    have := ho.owner h x hx
    rw [List.exists_mem_cons_iff, hown h] at this
    rw [List.exists_mem_cons_iff]
    exact this

theorem owned_release_iff : Owned s (.release h none :: fs) ↔ Owned s (.finalizer h :: fs) := by
  have hown : ∀ h', (Frame.release h none).owns h' = (Frame.finalizer h).owns h' := fun _ => rfl
  have hk : ∀ h' b, Frame.release h none ≠ .release h' (some b) := nofun
  have hk' : ∀ h' b, Frame.finalizer h ≠ .release h' (some b) := nofun
  exact ⟨Owned.swap hown hk hk', Owned.swap (fun h' => (hown h').symm) hk' hk⟩

theorem owned_teardown_iff : Owned s (.teardown h true :: fs) ↔ Owned s (.finalizer h :: fs) := by
  have hown : ∀ h', (Frame.teardown h true).owns h' = (Frame.finalizer h).owns h' := fun _ => rfl
  have hk : ∀ h' b, Frame.teardown h true ≠ .release h' (some b) := nofun
  have hk' : ∀ h' b, Frame.finalizer h ≠ .release h' (some b) := nofun
  exact ⟨Owned.swap hown hk hk', Owned.swap (fun h' => (hown h').symm) hk' hk⟩

/-- No frame of the rest owns what the first one does. -/
theorem Owned.rest {k : Frame} (ho : Owned s (k :: fs)) (hk : k.owns h = true) :
    ∀ k' ∈ fs, k'.owns h = false := by
  have := ho.single h
  rw [countP_cons, hk, if_pos rfl] at this
  have hzero : fs.countP (Frame.owns h) = 0 := by omega
  intro k' hk'
  exact Bool.eq_false_iff.mpr (List.countP_eq_zero.mp hzero k' hk')

theorem mem_cons_finalizer (fs : List Frame) (h h' b : ℕ) :
    Frame.release h' (some b) ∈ Frame.finalizer h :: fs ↔ Frame.release h' (some b) ∈ fs := by
  rw [mem_cons, or_iff_right]
  intro heq
  cases heq

theorem Owned.single_cons (ho : Owned s fs) (hall : ∀ k ∈ fs, k.owns h = false) (h' : ℕ) :
    (Frame.finalizer h :: fs).countP (Frame.owns h') ≤ 1 := by
  rw [countP_cons]
  by_cases heq : h = h'
  · subst heq
    have : fs.countP (Frame.owns h) = 0 := by
      rw [List.countP_eq_zero]
      intro k hk
      exact Bool.eq_false_iff.mp (hall k hk)
    rw [this]
    split
    · exact le_rfl
    · exact Nat.zero_le _
  · rw [if_neg]
    · exact ho.single h'
    · intro hown
      exact heq (of_decide_eq_true hown)

/-- The objects of `t` are those of `s` but for the one at `o`. -/
structure Swapped (s t : State) (o : ℕ) (obj : Option Object) : Prop where
  objects : t.objects = update s.objects o obj
  hints : t.hints = s.hints
  pendingFinalizers : t.pendingFinalizers = s.pendingFinalizers
  closing : t.closing = s.closing

variable {t : State} {o : ℕ}

theorem Swapped.hintOf {obj : Option Object} (ht : Swapped s t o obj) (o' : ℕ) :
    t.hintOf o' = if o' = o then obj.bind Object.hint else s.hintOf o' := by
  unfold State.hintOf
  rw [ht.objects]
  by_cases ho : o' = o
  · rw [if_pos ho, ho, update_self]
  · rw [if_neg ho, update_of_ne ho]

theorem swapped_setObject (s : State) (o : ℕ) (obj : Option Object) :
    Swapped s (s.setObject o obj) o obj := ⟨rfl, rfl, rfl, rfl⟩

theorem swapped_carry (s : State) (kind : Kind) (h : ℕ) :
    Swapped s (s.carry kind h) s.nextObject (some ⟨kind, some h⟩) := ⟨rfl, rfl, rfl, rfl⟩

/-- A hint in between has no carrier. -/
theorem Owned.no_carrier (ho : Owned s (.finalizer h :: fs)) (o : ℕ) : s.hintOf o ≠ some h := by
  intro hh
  obtain ⟨x, hx⟩ := ho.live o h hh
  have hself : (Frame.finalizer h).owns h = true := decide_eq_true rfl
  rcases ho.alone o h x hh hx with hmem | ⟨_, hall⟩
  · rcases mem_cons.mp hmem with heq | hmem
    · cases heq
    · have := ho.rest hself _ hmem
      simp [Frame.owns] at this
  · have := hall _ mem_cons_self
    rw [hself] at this
    cases this

variable {x : Hint}

/-- The new owner is an object with an empty slot, or a new one. -/
theorem Owned.give {kind : Kind} (ho : Owned s (.finalizer h :: fs)) (hx : s.hints h = some x)
    (hrel : x.released = false) (ht : Swapped s t o (some ⟨kind, some h⟩))
    (hnext : ∀ o', t.nextObject ≤ o' → o' ≠ o ∧ s.objects o' = none)
    (hslot : s.objects o = none ∨ s.objects o = some ⟨.record, none⟩) : Owned t fs := by
  have hself : (Frame.finalizer h).owns h = true := decide_eq_true rfl
  have hno := ho.no_carrier
  have hof : ∀ o', t.hintOf o' = if o' = o then some h else s.hintOf o' := ht.hintOf
  have hempty : s.hintOf o = none := by
    unfold State.hintOf
    rcases hslot with hs | hs
    · rw [hs]
      rfl
    · rw [hs]
      rfl
  -- Buffers are where they were.
  have hbuffer : ∀ b hint, s.objects b = some ⟨.buffer, hint⟩ → t.objects b = some ⟨.buffer, hint⟩ := by
    intro b hint hb
    rw [ht.objects, update_of_ne, hb]
    rintro rfl
    rcases hslot with hs | hs
    · rw [hs] at hb
      cases hb
    · rw [hs] at hb
      cases hb
  have hcases : ∀ o' h', t.hintOf o' = some h' → o' = o ∧ h' = h ∨ o' ≠ o ∧ s.hintOf o' = some h' := by
    intro o' h' hh
    rw [hof] at hh
    split at hh
    · rename_i heq
      exact .inl ⟨heq, (Option.some.inj hh).symm⟩
    · rename_i hne
      exact .inr ⟨hne, hh⟩
  refine ⟨?_, ?_, ?_, ?_, ?_, ?_, ?_, ?_, ?_⟩
  · intro o' hle
    obtain ⟨hne, hnone⟩ := hnext o' hle
    rw [ht.objects, update_of_ne hne, hnone]
  · intro o' h' hh
    rw [ht.hints]
    rcases hcases o' h' hh with ⟨_, rfl⟩ | ⟨_, hh⟩
    · exact ⟨x, hx⟩
    · exact ho.live o' h' hh
  · intro o' h' x' hh hx'
    rw [ht.hints] at hx'
    rcases hcases o' h' hh with ⟨_, rfl⟩ | ⟨_, hh⟩
    · rw [hx] at hx'
      cases hx'
      exact .inr ⟨hrel, ho.rest hself⟩
    · rcases ho.alone o' h' x' hh hx' with hmem | ⟨hr, hall⟩
      · rcases mem_cons.mp hmem with heq | hmem
        · cases heq
        · exact .inl hmem
      · exact .inr ⟨hr, (forall_mem_cons.mp hall).2⟩
  · intro o₁ o₂ h' h₁ h₂
    rcases hcases o₁ h' h₁ with ⟨rfl, rfl⟩ | ⟨hne₁, h₁⟩
    · rcases hcases o₂ _ h₂ with ⟨rfl, _⟩ | ⟨_, h₂⟩
      · rfl
      · exact absurd h₂ (hno o₂)
    · rcases hcases o₂ h' h₂ with ⟨_, rfl⟩ | ⟨_, h₂⟩
      · exact absurd h₁ (hno o₁)
      · exact ho.unique o₁ o₂ h' h₁ h₂
  · intro k hk
    rw [ht.hints]
    exact ho.framed k (mem_cons_of_mem _ hk)
  · intro h'
    exact (List.Sublist.countP_le (List.sublist_cons_self ..)).trans (ho.single h')
  · intro h' b hb
    obtain ⟨hr, hint, hobj, hor⟩ := ho.detached h' b (mem_cons_of_mem _ hb)
    rw [ht.hints]
    exact ⟨hr, hint, hbuffer b hint hobj, hor⟩
  · intro h' x' hx'
    rw [ht.hints] at hx'
    rw [ht.pendingFinalizers, ht.closing]
    rcases ho.owner h' x' hx' with ⟨o', ho'⟩ | ⟨k, hk, hown⟩ | hdef
    · refine .inl ⟨o', ?_⟩
      rw [hof, if_neg, ho']
      rintro rfl
      rw [hempty] at ho'
      cases ho'
    · rcases mem_cons.mp hk with rfl | hk
      · refine .inl ⟨o, ?_⟩
        rw [hof, if_pos rfl]
        exact congrArg some (of_decide_eq_true hown)
      · exact .inr (.inl ⟨k, hk, hown⟩)
    · exact .inr (.inr hdef)
  · intro h' x' b hx' hb
    rw [ht.hints] at hx'
    obtain ⟨hint, hobj, hor⟩ := ho.tracked h' x' b hx' hb
    exact ⟨hint, hbuffer b hint hobj, hor⟩

/-- Back from an object that is not being detached: it dies, or its slot is emptied. -/
theorem Owned.take {obj : Object} {obj' : Option Object} (ho : Owned s fs)
    (hobj : s.objects o = some obj) (hh : obj.hint = some h)
    (hdet : ∀ h', Frame.release h' (some o) ∉ fs) (ht : Swapped s t o obj')
    (hnext : t.nextObject = s.nextObject) (hnew : obj' = some { obj with hint := none } ∨
      obj' = none ∧ ∀ h x, s.hints h = some x → x.arrayBuffer ≠ some o) :
    Owned t (.finalizer h :: fs) := by
  have hsh : s.hintOf o = some h := by
    unfold State.hintOf
    rw [hobj]
    exact hh
  obtain ⟨x, hx⟩ := ho.live o h hsh
  obtain ⟨hrel, hall⟩ : x.released = false ∧ ∀ k ∈ fs, k.owns h = false := by
    rcases ho.alone o h x hsh hx with hmem | hboth
    · exact absurd hmem (hdet h)
    · exact hboth
  have hof : ∀ o', t.hintOf o' = if o' = o then none else s.hintOf o' := by
    intro o'
    rw [ht.hintOf]
    rcases hnew with rfl | ⟨rfl, _⟩
    · rfl
    · rfl
  have hcases : ∀ o' h', t.hintOf o' = some h' → h' ≠ h ∧ s.hintOf o' = some h' := by
    intro o' h' hh'
    rw [hof] at hh'
    split at hh'
    · cases hh'
    · rename_i hne
      refine ⟨?_, hh'⟩
      rintro rfl
      exact hne (ho.unique o' o h' hh' hsh)
  refine ⟨?_, ?_, ?_, ?_, ?_, ?_, ?_, ?_, ?_⟩
  · intro o' hle
    rw [hnext] at hle
    rw [ht.objects]
    exact Table.update_fresh ho.fresh hobj hle
  · intro o' h' hh'
    rw [ht.hints]
    exact ho.live o' h' (hcases o' h' hh').2
  · intro o' h' x' hh' hx'
    rw [ht.hints] at hx'
    obtain ⟨hne, hh'⟩ := hcases o' h' hh'
    rw [mem_cons_finalizer]
    rcases ho.alone o' h' x' hh' hx' with hmem | ⟨hr, hown⟩
    · exact .inl hmem
    · refine .inr ⟨hr, ?_⟩
      rw [forall_mem_cons]
      exact ⟨decide_eq_false hne.symm, hown⟩
  · intro o₁ o₂ h' h₁ h₂
    exact ho.unique o₁ o₂ h' (hcases o₁ h' h₁).2 (hcases o₂ h' h₂).2
  · intro k hk h' hown
    rw [ht.hints]
    rcases mem_cons.mp hk with rfl | hk
    · have : h = h' := of_decide_eq_true hown
      rw [← this]
      exact ⟨x, hx⟩
    · exact ho.framed k hk h' hown
  · exact ho.single_cons hall
  · intro h' b hb
    rw [mem_cons_finalizer] at hb
    obtain ⟨hr, hint, hb', hor⟩ := ho.detached h' b hb
    rw [ht.hints]
    refine ⟨hr, hint, ?_, hor⟩
    rw [ht.objects, update_of_ne, hb']
    rintro rfl
    exact hdet h' hb
  · intro h' x' hx'
    rw [ht.hints] at hx'
    rw [ht.pendingFinalizers, ht.closing]
    by_cases heq : h' = h
    · exact .inr (.inl ⟨_, mem_cons_self, decide_eq_true heq.symm⟩)
    · rcases ho.owner h' x' hx' with ⟨o', ho'⟩ | ⟨k, hk, hown⟩ | hdef
      · refine .inl ⟨o', ?_⟩
        rw [hof, if_neg, ho']
        rintro rfl
        rw [hsh] at ho'
        cases ho'
        exact heq rfl
      · exact .inr (.inl ⟨k, mem_cons_of_mem _ hk, hown⟩)
      · exact .inr (.inr hdef)
  · intro h' x' b hx' hb
    rw [ht.hints] at hx'
    obtain ⟨hint, hb', hor⟩ := ho.tracked h' x' b hx' hb
    by_cases heq : b = o
    · subst heq
      rcases hnew with rfl | ⟨_, hno⟩
      · rw [hobj] at hb'
        cases hb'
        exact ⟨none, by rw [ht.objects, update_self], .inl rfl⟩
      · exact absurd hb (hno h' x' hx')
    · refine ⟨hint, ?_, hor⟩
      rw [ht.objects, update_of_ne heq, hb']

/-- An object that carries nothing dies. -/
theorem Owned.dropped {obj : Object} (ho : Owned s fs) (hobj : s.objects o = some obj)
    (hh : obj.hint = none) (hdet : ∀ h', Frame.release h' (some o) ∉ fs)
    (hweak : ∀ h x, s.hints h = some x → x.arrayBuffer ≠ some o) :
    Owned (s.setObject o none) fs := by
  have ht := swapped_setObject s o none
  have hsh : s.hintOf o = none := by
    unfold State.hintOf
    rw [hobj]
    exact hh
  have hof : ∀ o', (s.setObject o none).hintOf o' = s.hintOf o' := by
    intro o'
    rw [ht.hintOf]
    split
    · rename_i heq
      rw [heq, hsh]
      rfl
    · rfl
  have hbuffer : ∀ b obj, b ≠ o → s.objects b = some obj → (s.setObject o none).objects b = some obj := by
    intro b obj hne hb
    rw [ht.objects, update_of_ne hne, hb]
  refine ⟨?_, ?_, ?_, ?_, ho.framed, ho.single, ?_, ?_, ?_⟩
  · intro o' hle
    rw [ht.objects, Function.update_apply]
    split
    · rfl
    · exact ho.fresh o' hle
  · intro o' h' hh'
    rw [hof] at hh'
    exact ho.live o' h' hh'
  · intro o' h' x hh'
    rw [hof] at hh'
    exact ho.alone o' h' x hh'
  · intro o₁ o₂ h' h₁ h₂
    rw [hof] at h₁ h₂
    exact ho.unique o₁ o₂ h' h₁ h₂
  · intro h' b hb
    obtain ⟨hr, hint, hobj', hor⟩ := ho.detached h' b hb
    refine ⟨hr, hint, hbuffer b _ ?_ hobj', hor⟩
    rintro rfl
    exact hdet h' hb
  · intro h' x hx
    simp only [hof]
    exact ho.owner h' x hx
  · intro h' x b hx hb
    obtain ⟨hint, hobj', hor⟩ := ho.tracked h' x b hx hb
    refine ⟨hint, hbuffer b _ ?_ hobj', hor⟩
    rintro rfl
    exact hweak h' x hx hb

/-- `t` differs from `s` in the record of `h`, and in whether `h` is pending. -/
structure Rewritten (s t : State) (h : ℕ) (x : Option Hint) : Prop where
  hints : t.hints = update s.hints h x
  objects : t.objects = s.objects
  nextObject : t.nextObject = s.nextObject
  closing : t.closing = s.closing
  pendingFinalizers : ∀ h', h' ≠ h → h' ∈ s.pendingFinalizers → h' ∈ t.pendingFinalizers

theorem Rewritten.hintOf {x : Option Hint} (ht : Rewritten s t h x) (o : ℕ) :
    t.hintOf o = s.hintOf o := by
  unfold State.hintOf
  rw [ht.objects]

theorem Rewritten.of_ne {x : Option Hint} (ht : Rewritten s t h x) {h' : ℕ} (hne : h' ≠ h) :
    t.hints h' = s.hints h' := by
  rw [ht.hints, update_of_ne hne]

theorem Rewritten.self {x : Option Hint} (ht : Rewritten s t h x) : t.hints h = x := by
  rw [ht.hints, update_self]

/-- The record of a hint changes, and its owner stays. -/
theorem Owned.rewrite {x' : Hint} (ho : Owned s fs) (hx : s.hints h = some x)
    (ht : Rewritten s t h (some x'))
    (hrel : x'.released = x.released ∨ x'.released = true ∧ ∀ o, s.hintOf o ≠ some h)
    (hdef : x.released = true → h ∈ s.pendingFinalizers → s.closing = true →
      (∃ k ∈ fs, k.owns h = true) ∨ x'.released = true ∧ h ∈ t.pendingFinalizers)
    (htrack : ∀ b, x'.arrayBuffer = some b →
      ∃ hint, s.objects b = some ⟨.buffer, hint⟩ ∧ (hint = none ∨ hint = some h)) :
    Owned t fs := by
  -- Whether a hint is there does not change.
  have hlive : ∀ h', (∃ y, s.hints h' = some y) → ∃ y, t.hints h' = some y := by
    rintro h' ⟨y, hy⟩
    by_cases hne : h' = h
    · rw [hne]
      exact ⟨x', ht.self⟩
    · exact ⟨y, by rw [ht.of_ne hne, hy]⟩
  refine ⟨?_, ?_, ?_, ?_, ?_, ho.single, ?_, ?_, ?_⟩
  · rw [ht.nextObject, ht.objects]
    exact ho.fresh
  · intro o h' hh
    rw [ht.hintOf] at hh
    exact hlive h' (ho.live o h' hh)
  · intro o h' y hh hy
    rw [ht.hintOf] at hh
    by_cases hne : h' = h
    · subst hne
      rw [ht.self] at hy
      cases hy
      rcases hrel with hsame | ⟨_, hno⟩
      · rw [hsame]
        exact ho.alone o h' x hh hx
      · exact absurd hh (hno o)
    · rw [ht.of_ne hne] at hy
      exact ho.alone o h' y hh hy
  · intro o o' h' hh hh'
    rw [ht.hintOf] at hh hh'
    exact ho.unique o o' h' hh hh'
  · intro k hk h' hown
    exact hlive h' (ho.framed k hk h' hown)
  · intro h' b hb
    obtain ⟨hr, hint, hobj, hor⟩ := ho.detached h' b hb
    rw [ht.objects]
    refine ⟨?_, hint, hobj, hor⟩
    intro y hy
    by_cases hne : h' = h
    · subst hne
      rw [ht.self] at hy
      cases hy
      rcases hrel with hsame | ⟨htrue, _⟩
      · rw [hsame]
        exact hr x hx
      · exact htrue
    · rw [ht.of_ne hne] at hy
      exact hr y hy
  · intro h' y hy
    rw [ht.closing]
    simp only [ht.hintOf]
    by_cases hne : h' = h
    · subst hne
      rw [ht.self] at hy
      cases hy
      rcases ho.owner h' x hx with hcar | hframe | ⟨hr, hp, hcl⟩
      · exact .inl hcar
      · exact .inr (.inl hframe)
      · rcases hdef hr hp hcl with hframe | hkept
        · exact .inr (.inl hframe)
        · exact .inr (.inr ⟨hkept.1, hkept.2, hcl⟩)
    · rw [ht.of_ne hne] at hy
      rcases ho.owner h' y hy with hcar | hframe | ⟨hr, hp, hcl⟩
      · exact .inl hcar
      · exact .inr (.inl hframe)
      · exact .inr (.inr ⟨hr, ht.pendingFinalizers h' hne hp, hcl⟩)
  · intro h' y b hy hb
    rw [ht.objects]
    by_cases hne : h' = h
    · subst hne
      rw [ht.self] at hy
      cases hy
      exact htrack b hb
    · rw [ht.of_ne hne] at hy
      exact ho.tracked h' y b hy hb

/-- The owner in between destroys the hint. -/
theorem Owned.destroyed (ho : Owned s (.finalizer h :: fs)) (ht : Rewritten s t h none) :
    Owned t fs := by
  have hself : (Frame.finalizer h).owns h = true := decide_eq_true rfl
  have hrest := ho.rest hself
  have hno := ho.no_carrier
  have hrelease : ∀ b, Frame.release h (some b) ∉ fs := by
    intro b hb
    have := hrest _ hb
    simp [Frame.owns] at this
  have hframe : ∀ k ∈ fs, ∀ h', k.owns h' = true → h' ≠ h := by
    rintro k hk _ hown rfl
    rw [hrest k hk] at hown
    cases hown
  have hback : ∀ h' y, t.hints h' = some y → h' ≠ h ∧ s.hints h' = some y := by
    intro h' y hy
    by_cases hne : h' = h
    · rw [hne, ht.self] at hy
      cases hy
    · rw [ht.of_ne hne] at hy
      exact ⟨hne, hy⟩
  refine ⟨?_, ?_, ?_, ?_, ?_, ?_, ?_, ?_, ?_⟩
  · rw [ht.nextObject, ht.objects]
    exact ho.fresh
  · intro o h' hh
    rw [ht.hintOf] at hh
    obtain ⟨y, hy⟩ := ho.live o h' hh
    have hne : h' ≠ h := by
      rintro rfl
      exact hno o hh
    exact ⟨y, by rw [ht.of_ne hne, hy]⟩
  · intro o h' y hh hy
    rw [ht.hintOf] at hh
    obtain ⟨_, hy⟩ := hback h' y hy
    rcases ho.alone o h' y hh hy with hmem | ⟨hr, hall⟩
    · rcases mem_cons.mp hmem with heq | hmem
      · cases heq
      · exact .inl hmem
    · exact .inr ⟨hr, (forall_mem_cons.mp hall).2⟩
  · intro o o' h' hh hh'
    rw [ht.hintOf] at hh hh'
    exact ho.unique o o' h' hh hh'
  · intro k hk h' hown
    obtain ⟨y, hy⟩ := ho.framed k (mem_cons_of_mem _ hk) h' hown
    exact ⟨y, by rw [ht.of_ne (hframe k hk h' hown), hy]⟩
  · intro h'
    exact (List.Sublist.countP_le (List.sublist_cons_self ..)).trans (ho.single h')
  · intro h' b hb
    obtain ⟨hr, hint, hobj, hor⟩ := ho.detached h' b (mem_cons_of_mem _ hb)
    rw [ht.objects]
    refine ⟨?_, hint, hobj, hor⟩
    intro y hy
    exact hr y (hback h' y hy).2
  · intro h' y hy
    rw [ht.closing]
    simp only [ht.hintOf]
    obtain ⟨hne, hy⟩ := hback h' y hy
    rcases ho.owner h' y hy with hcar | ⟨k, hk, hown⟩ | ⟨hr, hp, hcl⟩
    · exact .inl hcar
    · rcases mem_cons.mp hk with rfl | hk
      · exact absurd (of_decide_eq_true hown).symm hne
      · exact .inr (.inl ⟨k, hk, hown⟩)
    · exact .inr (.inr ⟨hr, ht.pendingFinalizers h' hne hp, hcl⟩)
  · intro h' y b hy hb
    rw [ht.objects]
    exact ho.tracked h' y b (hback h' y hy).2 hb

variable {b : ℕ}

/-- Only the buffer being detached can carry the hint of its release. -/
theorem Owned.carrier_detached (ho : Owned s (.release h (some b) :: fs))
    (hh : s.hintOf o = some h) : o = b := by
  have hself : (Frame.release h (some b)).owns h = true := decide_eq_true rfl
  obtain ⟨x, hx⟩ := ho.live o h hh
  rcases ho.alone o h x hh hx with hmem | ⟨_, hall⟩
  · rcases mem_cons.mp hmem with heq | hmem
    · cases heq
      rfl
    · have := ho.rest hself _ hmem
      simp [Frame.owns] at this
  · have := hall _ mem_cons_self
    rw [hself] at this
    cases this

/-- The end of a detach. -/
theorem Owned.marked (ho : Owned s (.release h (some b) :: fs)) :
    Owned (s.markDetached (some b)) (.finalizer h :: fs) := by
  have hself : (Frame.release h (some b)).owns h = true := decide_eq_true rfl
  obtain ⟨_, hint₀, hobj₀, _⟩ := ho.detached h b mem_cons_self
  have hrest := ho.rest hself
  have ht : Swapped s (s.markDetached (some b)) b (some ⟨.buffer, none⟩) := by
    show Swapped s (s.setObject b _) b _
    rw [hobj₀]
    exact swapped_setObject s b _
  have hof : ∀ o, (s.markDetached (some b)).hintOf o = if o = b then none else s.hintOf o :=
    ht.hintOf
  have hcases : ∀ o h', (s.markDetached (some b)).hintOf o = some h' →
      h' ≠ h ∧ s.hintOf o = some h' := by
    intro o h' hh
    rw [hof] at hh
    split at hh
    · cases hh
    · rename_i hne
      refine ⟨?_, hh⟩
      rintro rfl
      exact hne (ho.carrier_detached hh)
  have hmem : ∀ h' o, h' ≠ h → (Frame.release h' (some o) ∈ Frame.release h (some b) :: fs ↔
      Frame.release h' (some o) ∈ Frame.finalizer h :: fs) := by
    intro h' o hne
    rw [mem_cons, mem_cons]
    refine or_congr_left (iff_of_false ?_ ?_)
    · intro heq
      cases heq
      exact hne rfl
    · nofun
  refine ⟨?_, ?_, ?_, ?_, ?_, ?_, ?_, ?_, ?_⟩
  · intro o hle
    rw [ht.objects]
    exact Table.update_fresh ho.fresh hobj₀ hle
  · intro o h' hh
    rw [ht.hints]
    exact ho.live o h' (hcases o h' hh).2
  · intro o h' x hh hx
    rw [ht.hints] at hx
    obtain ⟨hne, hh⟩ := hcases o h' hh
    rw [← hmem h' o hne, forall_mem_cons]
    exact (ho.alone o h' x hh hx).imp_right fun halone =>
      ⟨halone.1, forall_mem_cons.mp halone.2⟩
  · intro o o' h' hh hh'
    exact ho.unique o o' h' (hcases o h' hh).2 (hcases o' h' hh').2
  · rw [ht.hints, forall_mem_cons]
    exact forall_mem_cons.mp ho.framed
  · exact ho.single
  · intro h' b' hb
    rcases mem_cons.mp hb with heq | hb
    · cases heq
    obtain ⟨hr, hint, hobj, hor⟩ := ho.detached h' b' (mem_cons_of_mem _ hb)
    rw [ht.hints]
    refine ⟨hr, ?_⟩
    by_cases heq : b' = b
    · subst heq
      exact ⟨none, by rw [ht.objects, update_self], .inl rfl⟩
    · exact ⟨hint, by rw [ht.objects, update_of_ne heq, hobj], hor⟩
  · intro h' x hx
    rw [ht.hints] at hx
    rw [ht.pendingFinalizers, ht.closing]
    by_cases hne : h' = h
    · exact .inr (.inl ⟨_, mem_cons_self, decide_eq_true hne.symm⟩)
    · rcases ho.owner h' x hx with ⟨o, ho'⟩ | ⟨k, hk, hown⟩ | hdef
      · refine .inl ⟨o, ?_⟩
        rw [hof, if_neg, ho']
        rintro rfl
        obtain ⟨_, hint, hobj, hor⟩ := ho.detached h o mem_cons_self
        unfold State.hintOf at ho'
        rw [hobj] at ho'
        rcases hor with rfl | rfl
        · cases ho'
        · cases ho'
          exact hne rfl
      · rcases mem_cons.mp hk with rfl | hk
        · exact absurd (of_decide_eq_true hown).symm hne
        · exact .inr (.inl ⟨k, mem_cons_of_mem _ hk, hown⟩)
      · exact .inr (.inr hdef)
  · intro h' x b' hx hb
    rw [ht.hints] at hx
    obtain ⟨hint, hobj, hor⟩ := ho.tracked h' x b' hx hb
    by_cases heq : b' = b
    · subst heq
      exact ⟨none, by rw [ht.objects, update_self], .inl rfl⟩
    · exact ⟨hint, by rw [ht.objects, update_of_ne heq, hobj], hor⟩

/-- A second detach of a buffer, from the callback of the first. -/
theorem Owned.marked_again (ho : Owned s fs) (hmem : .release h (some b) ∈ fs) :
    Owned (s.markDetached (some b)) fs := by
  obtain ⟨_, hint₀, hobj₀, hor₀⟩ := ho.detached h b hmem
  have ht : Swapped s (s.markDetached (some b)) b (some ⟨.buffer, none⟩) := by
    show Swapped s (s.setObject b _) b _
    rw [hobj₀]
    exact swapped_setObject s b _
  have hof : ∀ o, (s.markDetached (some b)).hintOf o = if o = b then none else s.hintOf o :=
    ht.hintOf
  have hback : ∀ o h', (s.markDetached (some b)).hintOf o = some h' → s.hintOf o = some h' := by
    intro o h' hh
    rw [hof] at hh
    split at hh
    · cases hh
    · exact hh
  have hbuffer : ∀ b' hint h', s.objects b' = some ⟨.buffer, hint⟩ → (hint = none ∨ hint = some h') →
      ∃ hint, (s.markDetached (some b)).objects b' = some ⟨.buffer, hint⟩ ∧
        (hint = none ∨ hint = some h') := by
    intro b' hint h' hobj hor
    by_cases heq : b' = b
    · subst heq
      exact ⟨none, by rw [ht.objects, update_self], .inl rfl⟩
    · exact ⟨hint, by rw [ht.objects, update_of_ne heq, hobj], hor⟩
  refine ⟨?_, ?_, ?_, ?_, ?_, ho.single, ?_, ?_, ?_⟩
  · intro o hle
    rw [ht.objects]
    exact Table.update_fresh ho.fresh hobj₀ hle
  · intro o h' hh
    rw [ht.hints]
    exact ho.live o h' (hback o h' hh)
  · intro o h' x hh hx
    rw [ht.hints] at hx
    exact ho.alone o h' x (hback o h' hh) hx
  · intro o o' h' hh hh'
    exact ho.unique o o' h' (hback o h' hh) (hback o' h' hh')
  · rw [ht.hints]
    exact ho.framed
  · intro h' b' hb
    obtain ⟨hr, hint, hobj, hor⟩ := ho.detached h' b' hb
    rw [ht.hints]
    exact ⟨hr, hbuffer b' hint h' hobj hor⟩
  · intro h' x hx
    rw [ht.hints] at hx
    rw [ht.pendingFinalizers, ht.closing]
    rcases ho.owner h' x hx with ⟨o, ho'⟩ | hframe | hdef
    · by_cases heq : o = b
      · subst heq
        unfold State.hintOf at ho'
        rw [hobj₀] at ho'
        rcases hor₀ with rfl | rfl
        · cases ho'
        · cases ho'
          exact .inr (.inl ⟨_, hmem, decide_eq_true rfl⟩)
      · refine .inl ⟨o, ?_⟩
        rw [hof, if_neg heq, ho']
    · exact .inr (.inl hframe)
    · exact .inr (.inr hdef)
  · intro h' x b' hx hb
    rw [ht.hints] at hx
    obtain ⟨hint, hobj, hor⟩ := ho.tracked h' x b' hx hb
    exact hbuffer b' hint h' hobj hor

/-- The owner in between leaves the hint to the pending list. -/
theorem Owned.deferred (ho : Owned s (.finalizer h :: fs)) (hx : s.hints h = some x)
    (hr : x.released = true) (hp : h ∈ s.pendingFinalizers) (hc : s.closing = true) :
    Owned s fs := by
  refine ⟨ho.fresh, ho.live, ?_, ho.unique, ?_, ?_, ?_, ?_, ho.tracked⟩
  · intro o h' y hh hy
    rcases ho.alone o h' y hh hy with hmem | ⟨hr, hall⟩
    · rcases mem_cons.mp hmem with heq | hmem
      · cases heq
      · exact .inl hmem
    · exact .inr ⟨hr, (forall_mem_cons.mp hall).2⟩
  · intro k hk
    exact ho.framed k (mem_cons_of_mem _ hk)
  · intro h'
    exact (List.Sublist.countP_le (List.sublist_cons_self ..)).trans (ho.single h')
  · intro h' b hb
    exact ho.detached h' b (mem_cons_of_mem _ hb)
  · intro h' y hy
    rcases ho.owner h' y hy with hcar | ⟨k, hk, hown⟩ | hdef
    · exact .inl hcar
    · rcases mem_cons.mp hk with rfl | hk
      · have : h = h' := of_decide_eq_true hown
        subst this
        rw [hx] at hy
        cases hy
        exact .inr (.inr ⟨hr, hp, hc⟩)
      · exact .inr (.inl ⟨k, hk, hown⟩)
    · exact .inr (.inr hdef)

/-- The pending list leaves a hint that was released to the owner in between. -/
theorem Owned.resumed (ho : Owned s fs) (hx : s.hints h = some x) (hr : x.released = true)
    (hall : ∀ k ∈ fs, k.owns h = false) :
    Owned s (.finalizer h :: fs) := by
  have hno : ∀ o, s.hintOf o ≠ some h := by
    intro o hh
    rcases ho.alone o h x hh hx with hmem | ⟨hr', _⟩
    · have := hall _ hmem
      simp [Frame.owns] at this
    · rw [hr] at hr'
      cases hr'
  refine ⟨ho.fresh, ho.live, ?_, ho.unique, ?_, ?_, ?_, ?_, ho.tracked⟩
  · intro o h' y hh hy
    rw [mem_cons_finalizer, forall_mem_cons]
    have hne : h' ≠ h := by
      rintro rfl
      exact hno o hh
    rcases ho.alone o h' y hh hy with hmem | ⟨hr, hall⟩
    · exact .inl hmem
    · exact .inr ⟨hr, decide_eq_false hne.symm, hall⟩
  · rw [forall_mem_cons]
    refine ⟨?_, ho.framed⟩
    intro h' hown
    have : h = h' := of_decide_eq_true hown
    rw [← this]
    exact ⟨x, hx⟩
  · exact ho.single_cons hall
  · intro h' b hb
    exact ho.detached h' b ((mem_cons_finalizer ..).mp hb)
  · intro h' y hy
    rcases ho.owner h' y hy with hcar | ⟨k, hk, hown⟩ | hdef
    · exact .inl hcar
    · exact .inr (.inl ⟨k, mem_cons_of_mem _ hk, hown⟩)
    · exact .inr (.inr hdef)

/-- A new hint, in between. -/
theorem Owned.created (ho : Owned s fs) (hfresh : s.hints s.nextHint = none) (finalizeCb : Bool) :
    Owned (s.createHint finalizeCb) (.finalizer s.nextHint :: fs) := by
  have hof : ∀ o, (s.createHint finalizeCb).hintOf o = s.hintOf o := fun _ => rfl
  have hself : (s.createHint finalizeCb).hints s.nextHint = some { finalizeCb } :=
    update_self ..
  have hne : ∀ h', h' ≠ s.nextHint → (s.createHint finalizeCb).hints h' = s.hints h' :=
    fun h' hne => update_of_ne hne ..
  have hold : ∀ h', (∃ y, s.hints h' = some y) → h' ≠ s.nextHint := by
    rintro h' ⟨y, hy⟩ rfl
    rw [hfresh] at hy
    cases hy
  have hlive : ∀ h', (∃ y, s.hints h' = some y) → ∃ y, (s.createHint finalizeCb).hints h' = some y := by
    intro h' hy
    rw [hne h' (hold h' hy)]
    exact hy
  have hall : ∀ k ∈ fs, k.owns s.nextHint = false := by
    intro k hk
    rw [Bool.eq_false_iff]
    intro hown
    exact hold _ (ho.framed k hk _ hown) rfl
  have hpending : ∀ h', h' ∈ s.pendingFinalizers →
      h' ∈ (s.createHint finalizeCb).pendingFinalizers := by
    intro h' hp
    show h' ∈ if _ then _ else _
    split
    · exact mem_cons_of_mem _ hp
    · exact hp
  refine ⟨ho.fresh, ?_, ?_, ho.unique, ?_, ho.single_cons hall, ?_, ?_, ?_⟩
  · intro o h' hh
    exact hlive h' (ho.live o h' hh)
  · intro o h' y hh hy
    have hne' := hold h' (ho.live o h' hh)
    rw [hne h' hne'] at hy
    rw [mem_cons_finalizer, forall_mem_cons]
    exact (ho.alone o h' y hh hy).imp_right fun halone =>
      ⟨halone.1, decide_eq_false hne'.symm, halone.2⟩
  · rw [forall_mem_cons]
    refine ⟨?_, fun k hk h' hown => hlive h' (ho.framed k hk h' hown)⟩
    intro h' hown
    have : s.nextHint = h' := of_decide_eq_true hown
    rw [← this]
    exact ⟨_, hself⟩
  · intro h' b hb
    rw [mem_cons_finalizer] at hb
    obtain ⟨hr, hobj⟩ := ho.detached h' b hb
    refine ⟨?_, hobj⟩
    have hne' : h' ≠ s.nextHint := hold h' (ho.framed _ hb h' (decide_eq_true rfl))
    rw [hne h' hne']
    exact hr
  · intro h' y hy
    by_cases heq : h' = s.nextHint
    · exact .inr (.inl ⟨_, mem_cons_self, decide_eq_true heq.symm⟩)
    · rw [hne h' heq] at hy
      rcases ho.owner h' y hy with hcar | ⟨k, hk, hown⟩ | ⟨hr, hp, hc⟩
      · exact .inl hcar
      · exact .inr (.inl ⟨k, mem_cons_of_mem _ hk, hown⟩)
      · exact .inr (.inr ⟨hr, hpending h' hp, hc⟩)
  · intro h' y b hy hb
    by_cases heq : h' = s.nextHint
    · rw [heq, hself] at hy
      cases hy
      cases hb
    · rw [hne h' heq] at hy
      exact ho.tracked h' y b hy hb

/-- The beginning of a detach: the buffer keeps its hint until the end. -/
theorem Owned.held (ho : Owned s fs) (hobj : s.objects b = some ⟨.buffer, some h⟩)
    (hx : s.hints h = some x) (hrel : x.released = false) :
    Owned (s.setHint h { x with released := true }) (.release h (some b) :: fs) := by
  have hsh : s.hintOf b = some h := by
    unfold State.hintOf
    rw [hobj]
    rfl
  have hall : ∀ k ∈ fs, k.owns h = false := by
    rcases ho.alone b h x hsh hx with hmem | ⟨_, hall⟩
    · have := (ho.detached h b hmem).1 x hx
      rw [hrel] at this
      cases this
    · exact hall
  have hself : (s.setHint h { x with released := true }).hints h = some { x with released := true } :=
    update_self ..
  have hne : ∀ h', h' ≠ h → (s.setHint h { x with released := true }).hints h' = s.hints h' :=
    fun h' hne => update_of_ne hne ..
  have hlive : ∀ h', (∃ y, s.hints h' = some y) →
      ∃ y, (s.setHint h { x with released := true }).hints h' = some y := by
    intro h' hy
    by_cases heq : h' = h
    · rw [heq]
      exact ⟨_, hself⟩
    · rw [hne h' heq]
      exact hy
  refine ⟨ho.fresh, ?_, ?_, ho.unique, ?_, ?_, ?_, ?_, ?_⟩
  · intro o h' hh
    exact hlive h' (ho.live o h' hh)
  · intro o h' y hh hy
    by_cases heq : h' = h
    · subst heq
      obtain rfl := ho.unique o b h' hh hsh
      exact .inl mem_cons_self
    · rw [hne h' heq] at hy
      rw [forall_mem_cons]
      rcases ho.alone o h' y hh hy with hmem | halone
      · exact .inl (mem_cons_of_mem _ hmem)
      · exact .inr ⟨halone.1, decide_eq_false (Ne.symm heq), halone.2⟩
  · rw [forall_mem_cons]
    refine ⟨?_, fun k hk h' hown => hlive h' (ho.framed k hk h' hown)⟩
    intro h' hown
    have : h = h' := of_decide_eq_true hown
    rw [← this]
    exact ⟨_, hself⟩
  · exact ho.single_cons hall
  · intro h' b' hb
    rcases mem_cons.mp hb with heq | hb
    · cases heq
      refine ⟨?_, some h, hobj, .inr rfl⟩
      intro y hy
      rw [hself] at hy
      cases hy
      rfl
    · obtain ⟨hr, hobj'⟩ := ho.detached h' b' hb
      refine ⟨?_, hobj'⟩
      intro y hy
      by_cases heq : h' = h
      · rw [heq, hself] at hy
        cases hy
        rfl
      · rw [hne h' heq] at hy
        exact hr y hy
  · intro h' y hy
    by_cases heq : h' = h
    · exact .inr (.inl ⟨_, mem_cons_self, decide_eq_true heq.symm⟩)
    · rw [hne h' heq] at hy
      rcases ho.owner h' y hy with hcar | ⟨k, hk, hown⟩ | hdef
      · exact .inl hcar
      · exact .inr (.inl ⟨k, mem_cons_of_mem _ hk, hown⟩)
      · exact .inr (.inr hdef)
  · intro h' y b' hy hb
    by_cases heq : h' = h
    · rw [heq, hself] at hy
      cases hy
      rw [heq]
      exact ho.tracked h x b' hx hb
    · rw [hne h' heq] at hy
      exact ho.tracked h' y b' hy hb

/-- Weak links to `o` go. -/
theorem Owned.cleared (ho : Owned s fs) (o : ℕ) : Owned (s.clearWeak o) fs := by
  have hback : ∀ h' y, (s.clearWeak o).hints h' = some y → ∃ z, s.hints h' = some z ∧
      y.released = z.released ∧ (∀ b, y.arrayBuffer = some b → z.arrayBuffer = some b) := by
    intro h' y hy
    obtain ⟨z, hz, rfl⟩ := Option.map_eq_some_iff.mp hy
    refine ⟨z, hz, ?_, ?_⟩
    · split <;> rfl
    · intro b hb
      split at hb
      · cases hb
      · exact hb
  have hlive : ∀ h', (∃ y, s.hints h' = some y) → ∃ y, (s.clearWeak o).hints h' = some y := by
    rintro h' ⟨y, hy⟩
    exact ⟨_, Option.map_eq_some_iff.mpr ⟨y, hy, rfl⟩⟩
  refine ⟨ho.fresh, ?_, ?_, ho.unique, ?_, ho.single, ?_, ?_, ?_⟩
  · intro o' h' hh
    exact hlive h' (ho.live o' h' hh)
  · intro o' h' y hh hy
    obtain ⟨z, hz, hrel, _⟩ := hback h' y hy
    rw [hrel]
    exact ho.alone o' h' z hh hz
  · intro k hk h' hown
    exact hlive h' (ho.framed k hk h' hown)
  · intro h' b hb
    obtain ⟨hr, hobj⟩ := ho.detached h' b hb
    refine ⟨?_, hobj⟩
    intro y hy
    obtain ⟨z, hz, hrel, _⟩ := hback h' y hy
    rw [hrel]
    exact hr z hz
  · intro h' y hy
    obtain ⟨z, hz, hrel, _⟩ := hback h' y hy
    rw [hrel]
    exact ho.owner h' z hz
  · intro h' y b hy hb
    obtain ⟨z, hz, _, harr⟩ := hback h' y hy
    exact ho.tracked h' z b hz (harr b hb)

theorem clearWeak_arrayBuffer (s : State) (o : ℕ) {h : ℕ} (hx : (s.clearWeak o).hints h = some x) :
    x.arrayBuffer ≠ some o := by
  obtain ⟨z, _, rfl⟩ := Option.map_eq_some_iff.mp hx
  split
  · nofun
  · rename_i hne
    exact hne

end

end WasmerNapi.Quickjs.Hints
