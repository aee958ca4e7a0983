import QueryTemplate.Proofs.Interpreter.Frame
import QueryTemplate.Proofs.Scope.Stack
import QueryTemplate.Proofs.Tree.Canonical
import QueryTemplate.Proofs.Value.Related

/-!
# Twin states

Two runs side by side: one of a template, the other of the same template without places, groups and braces around the
first branches of conditionals. The first run opens scopes for those braces which the second does not have. Their scopes
take other slots and generations, so a relation between handles says which scope of the second run stands for which of
the first (`Pairing`), and a list of the live scopes says for which there is none (`Level`).

The states of the two runs are twins (`Machine.Twin`) if live scopes that stand for each other bind the same names to
related values, inside parents that stand for each other, and all others that ever stood for each other have been
released. In twin states names have related values (`Machine.Twin.lookup`).
-/

namespace QueryTemplate

/-- Which scope of the second run stands for a scope of the first one. -/
abbrev Pairing := ScopeId → ScopeId → Prop

/-- A live scope of the first run, with the one of the second run that stands for it. A scope between braces that the
second run does not have is without one. -/
abbrev Level := ScopeId × Option ScopeId

namespace Level

/-- The live scopes of the first run. -/
def lefts (levels : List Level) : List ScopeId := levels.map Prod.fst

/-- The live scopes of the second run. -/
def rights (levels : List Level) : List ScopeId := levels.filterMap Prod.snd

variable {levels : List Level} {id id' : ScopeId}

@[simp] theorem lefts_cons (l : Level) (levels : List Level) : lefts (l :: levels) = l.1 :: lefts levels := rfl

@[simp] theorem rights_paired (id id' : ScopeId) (levels : List Level) :
    rights ((id, some id') :: levels) = id' :: rights levels := rfl

@[simp] theorem rights_extra (id : ScopeId) (levels : List Level) : rights ((id, none) :: levels) = rights levels := rfl

theorem mem_lefts {right : Option ScopeId} (h : (id, right) ∈ levels) : id ∈ lefts levels :=
  List.mem_map.2 ⟨_, h, rfl⟩

theorem mem_rights (h : (id, some id') ∈ levels) : id' ∈ rights levels := List.mem_filterMap.2 ⟨_, h, rfl⟩

theorem right_unique {right right' : Option ScopeId} (hn : (lefts levels).Nodup) (h : (id, right) ∈ levels)
    (h' : (id, right') ∈ levels) : right = right' :=
  congrArg Prod.snd (List.inj_on_of_nodup_map hn h h' rfl)

theorem left_unique {other : ScopeId} (hn : (rights levels).Nodup) (h : (id, some id') ∈ levels)
    (h' : (other, some id') ∈ levels) : id = other := by
  induction levels with
  | nil => cases h
  | cons l levels ih =>
    obtain ⟨i, right⟩ := l
    cases right with
    | none =>
      rw [rights_extra] at hn
      refine ih hn ?_ ?_
      · exact (List.mem_cons.1 h).resolve_left nofun
      · exact (List.mem_cons.1 h').resolve_left nofun
    | some i' =>
      rw [rights_paired] at hn
      obtain ⟨hnot, hn⟩ := List.nodup_cons.1 hn
      rcases List.mem_cons.1 h with he | hm <;> rcases List.mem_cons.1 h' with he' | hm'
      · cases he
        cases he'
        rfl
      · cases he
        exact absurd (mem_rights hm') hnot
      · cases he'
        exact absurd (mem_rights hm) hnot
      · exact ih hn hm hm'

end Level

open Level

/-- A declaration without places, groups, and braces around branches. -/
def FunctionDecl.bare (d : FunctionDecl) : FunctionDecl :=
  ⟨d.name.unplaced, d.parameters.map Ident.unplaced, Stmt.bareAll d.body⟩

/-- Closures of the same declaration, in scopes that stand for each other. -/
structure Closure.Twin (ρ : Pairing) (f g : Closure) : Prop where
  serial : f.serial = g.serial
  declaration : g.declaration = f.declaration.bare
  scope : ρ f.scope g.scope

/-- Values that are the same up to twin closures. -/
abbrev Value.Twin (ρ : Pairing) : Value → Value → Prop := Value.Related (Closure.Twin ρ)

section

variable {ρ ρ' : Pairing}

theorem Closure.Twin.mono {f g : Closure} (hρ : ∀ a b, ρ a b → ρ' a b) (h : f.Twin ρ g) : f.Twin ρ' g :=
  ⟨h.serial, h.declaration, hρ _ _ h.scope⟩

theorem Closure.Twin.name {f g : Closure} (h : f.Twin ρ g) : f.name = g.name := by
  rw [Closure.name, Closure.name, h.declaration]
  rfl

theorem Closure.Twin.arity {f g : Closure} (h : f.Twin ρ g) : f.arity = g.arity := by
  rw [Closure.arity, Closure.arity, h.declaration]
  exact (List.length_map _).symm

theorem Closure.Twin.face {f g : Closure} (h : f.Twin ρ g) : f.face = g.face := by
  rw [Closure.face, Closure.face, h.serial, h.name, h.arity]

theorem Value.Related.twin_mono {v w : Value} (hρ : ∀ a b, ρ a b → ρ' a b) (h : v.Twin ρ w) : v.Twin ρ' w :=
  h.mono fun _ _ => Closure.Twin.mono hρ

theorem Value.Related.twin_alike {v w : Value} (h : v.Twin ρ w) : v.Alike w := h.alike fun _ _ => Closure.Twin.face

end

/-! ## Live scopes -/

/-- Scopes that bind the same names to related values, inside scopes that stand for each other. -/
structure Scope.Twin (ρ : Pairing) (levels : List Level) (s t : Scope Value) : Prop where
  bindings : Bindings.Related (Closure.Twin ρ) s.bindings t.bindings
  parent : Option.Rel (fun p q => (p, some q) ∈ levels) s.parent t.parent

/-- The live scopes of two stores, the innermost first. The parent of a scope is further down. A scope without one that
stands for it is empty, and lies on its parent. -/
inductive Levels (ρ : Pairing) (st st' : ScopeStore Value) : List Level → Prop
  | nil : Levels ρ st st' []
  | paired {id id' : ScopeId} {s s' : Scope Value} {levels : List Level} (pair : ρ id id')
    (left : st.scope? id = some s) (right : st'.scope? id' = some s') (twin : s.Twin ρ levels s')
    (rest : Levels ρ st st' levels) : Levels ρ st st' ((id, some id') :: levels)
  | extra {id p p' : ScopeId} {levels : List Level} (left : st.scope? id = some ⟨some p, .empty⟩)
    (rest : Levels ρ st st' ((p, some p') :: levels)) : Levels ρ st st' ((id, none) :: (p, some p') :: levels)

namespace Levels

variable {ρ ρ' : Pairing} {st st' st₁ st₁' : ScopeStore Value} {levels : List Level} {id id' : ScopeId}

/-- Changed stores have the same levels if scopes that stand for each other still bind related values in their old
parents. -/
theorem update (h : Levels ρ st st' levels) (hρ : ∀ a b, ρ a b → ρ' a b)
    (hpaired : ∀ id id' s s', (id, some id') ∈ levels → st.scope? id = some s → st'.scope? id' = some s' →
      Bindings.Related (Closure.Twin ρ) s.bindings s'.bindings → ∃ b b', st₁.scope? id = some { s with bindings := b } ∧
        st₁'.scope? id' = some { s' with bindings := b' } ∧ Bindings.Related (Closure.Twin ρ') b b')
    (hextra : ∀ id, (id, none) ∈ levels → st₁.scope? id = st.scope? id) : Levels ρ' st₁ st₁' levels := by
  induction h with
  | nil => exact .nil
  | @paired id id' s s' levels pair left right twin rest ih =>
    obtain ⟨b, b', hb, hb', hr⟩ := hpaired id id' s s' List.mem_cons_self left right twin.bindings
    refine .paired (hρ _ _ pair) hb hb' ⟨hr, twin.parent⟩ (ih ?_ ?_)
    · exact fun id id' s s' hm => hpaired id id' s s' (List.mem_cons_of_mem _ hm)
    · exact fun id hm => hextra id (List.mem_cons_of_mem _ hm)
  | @extra id p p' levels left rest ih =>
    refine .extra ((hextra id List.mem_cons_self).trans left) (ih ?_ ?_)
    · exact fun id id' s s' hm => hpaired id id' s s' (List.mem_cons_of_mem _ hm)
    · exact fun id hm => hextra id (List.mem_cons_of_mem _ hm)

/-- The same where no live scope has changed. -/
theorem congr (h : Levels ρ st st' levels) (hρ : ∀ a b, ρ a b → ρ' a b)
    (hl : ∀ id ∈ lefts levels, st₁.scope? id = st.scope? id)
    (hr : ∀ id ∈ rights levels, st₁'.scope? id = st'.scope? id) : Levels ρ' st₁ st₁' levels := by
  refine h.update hρ (fun id id' s s' hm hs hs' hb => ?_) fun id hm => hl id (mem_lefts hm)
  refine ⟨s.bindings, s'.bindings, ?_, ?_, hb.mono fun _ _ => Closure.Twin.mono hρ⟩
  · rw [hl id (mem_lefts hm), hs]
  · rw [hr id' (mem_rights hm), hs']

theorem scopes (h : Levels ρ st st' levels) (hm : (id, some id') ∈ levels) :
    ∃ s s', st.scope? id = some s ∧ st'.scope? id' = some s' ∧
      Bindings.Related (Closure.Twin ρ) s.bindings s'.bindings ∧ ρ id id' := by
  induction h with
  | nil => cases hm
  | paired pair left right twin rest ih =>
    rcases List.mem_cons.1 hm with he | hm
    · cases he
      exact ⟨_, _, left, right, twin.bindings, pair⟩
    · exact ih hm
  | extra left rest ih =>
    rcases List.mem_cons.1 hm with he | hm
    · cases he
    · exact ih hm

/-- Scopes of two walks that stand for each other and bind related values. -/
def Found (ρ : Pairing) (levels : List Level) :
    Option (ScopeId × Scope Value) → Option (ScopeId × Scope Value) → Prop :=
  Option.Rel fun x y => (x.1, some y.1) ∈ levels ∧ Bindings.Related (Closure.Twin ρ) x.2.bindings y.2.bindings

theorem Found.cons {x y : Option (ScopeId × Scope Value)} (h : Found ρ levels x y) (l : Level) :
    Found ρ (l :: levels) x y := by
  cases h with
  | none => exact .none
  | some h => exact .some ⟨List.mem_cons_of_mem _ h.1, h.2⟩

/-- From scopes that stand for each other outward, a name is bound in scopes that stand for each other, or not at all.
A walk does not go through more scopes than there are levels. -/
theorem binderWithin (h : Levels ρ st st' levels) (hm : (id, some id') ∈ levels) (name : String) {n n' : Nat}
    (hn : (lefts levels).length ≤ n) (hn' : (rights levels).length ≤ n') :
    Found ρ levels (st.binderWithin name n id) (st'.binderWithin name n' id') := by
  induction h generalizing id id' n n' with
  | nil => cases hm
  | @paired i i' s s' levels pair left right twin rest ih =>
    rw [lefts_cons, List.length_cons] at hn
    rw [rights_paired, List.length_cons] at hn'
    rcases List.mem_cons.1 hm with he | hm
    · cases he
      obtain ⟨k, rfl⟩ : ∃ k, n = k + 1 := ⟨n - 1, by omega⟩
      obtain ⟨k', rfl⟩ : ∃ k', n' = k' + 1 := ⟨n' - 1, by omega⟩
      unfold ScopeStore.binderWithin
      simp only [left, right, ← twin.bindings.contains name]
      split
      · exact .some ⟨List.mem_cons_self, twin.bindings⟩
      have hparent := twin.parent
      revert hparent
      generalize s.parent = p
      generalize s'.parent = p'
      intro hparent
      cases hparent with
      | none => exact .none
      | some hp => exact (ih hp (by omega) (by omega)).cons _
    · exact (ih hm (by omega) (by omega)).cons _
  | @extra i p p' levels left rest ih =>
    rw [lefts_cons, List.length_cons] at hn
    rw [rights_extra] at hn'
    have hm : (id, some id') ∈ (p, some p') :: levels := (List.mem_cons.1 hm).resolve_left nofun
    exact (ih hm (by omega) hn').cons _

end Levels

/-- Stores whose live scopes are those of the levels, and in which all scopes that stand for each other are live or have
been released in both. -/
structure ScopeStore.Twin (ρ : Pairing) (levels : List Level) (st st' : ScopeStore Value) : Prop where
  left : st.Stack (lefts levels)
  right : st'.Stack (rights levels)
  linked : Levels ρ st st' levels
  past : ∀ a b, ρ a b → (a, some b) ∈ levels ∨ st.Past a ∧ st'.Past b
  counted : st.Counted
  counted' : st'.Counted
  opened : st'.opened ≤ st.opened

namespace ScopeStore.Twin

variable {ρ : Pairing} {st st' : ScopeStore Value} {levels : List Level} {id id' : ScopeId} {s s' : Scope Value}
  {v w : Value}

/-- Of scopes that stand for each other both are live or none is. -/
theorem isLive (h : Twin ρ levels st st') (hp : ρ id id') : st.isLive id = st'.isLive id' := by
  rcases h.past id id' hp with hm | ⟨hl, hr⟩
  · rw [(h.left.live_iff id).2 (mem_lefts hm), (h.right.live_iff id').2 (mem_rights hm)]
  · rw [hl.not_live, hr.not_live]

theorem mem_of_isLive (h : Twin ρ levels st st') (hp : ρ id id') (hl : st.isLive id = true) : (id, some id') ∈ levels :=
  (h.past id id' hp).resolve_right fun hpast => by
    rw [hpast.1.not_live] at hl
    cases hl

/-- Related values for the same name in scopes that stand for each other. -/
theorem insert (h : Twin ρ levels st st') (hm : (id, some id') ∈ levels) (hs : st.scope? id = some s)
    (hs' : st'.scope? id' = some s') (name : String) (hv : v.Twin ρ w) :
    Twin ρ levels (st.store id { s with bindings := s.bindings.insert name v })
      (st'.store id' { s' with bindings := s'.bindings.insert name w }) := by
  have hl : st.isLive id = true := isLive_iff.2 ⟨s, hs⟩
  have hl' : st'.isLive id' = true := isLive_iff.2 ⟨s', hs'⟩
  refine ⟨h.left.of_live (store_consistent h.left.consistent hl) (isLive_store hl),
    h.right.of_live (store_consistent h.right.consistent hl') (isLive_store hl'), ?_, fun a b hp => ?_,
    h.counted.of_live (generation_store hl) (isLive_store hl) rfl,
    h.counted'.of_live (generation_store hl') (isLive_store hl') rfl, h.opened⟩
  · refine h.linked.update (fun _ _ hp => hp) (fun i i' t t' hi ht ht' hb => ?_) fun i hi => ?_
    · rw [scope?_store hl, scope?_store hl']
      by_cases he : i = id
      · subst he
        cases right_unique h.left.nodup hi hm
        rw [hs] at ht
        rw [hs'] at ht'
        cases ht
        cases ht'
        exact ⟨_, _, if_pos rfl, if_pos rfl, hb.insert name hv⟩
      · have he' : i' ≠ id' := fun he' => he (left_unique h.right.nodup hi (he' ▸ hm))
        exact ⟨t.bindings, t'.bindings, by rw [if_neg he, ht], by rw [if_neg he', ht'], hb⟩
    · have he : i ≠ id := fun he => by
        subst he
        cases right_unique h.left.nodup hi hm
      rw [scope?_store hl, if_neg he]
  · exact (h.past a b hp).imp_right fun hpast =>
      ⟨hpast.1.of_generation (generation_store hl), hpast.2.of_generation (generation_store hl')⟩

/-- The scopes on top are released. -/
theorem release (h : Twin ρ ((id, some id') :: levels) st st') (hl : lefts levels ≠ []) (hr : rights levels ≠ [])
    (ho : st.opened < 2 ^ 32) : Twin ρ levels (st.release id) (st'.release id') := by
  have hleft : st.Stack (id :: lefts levels) := h.left
  have hright : st'.Stack (id' :: rights levels) := h.right
  have hlive := (hleft.live_iff id).2 List.mem_cons_self
  have hlive' := (hright.live_iff id').2 List.mem_cons_self
  have hglobal := hleft.ne_global hl
  have hglobal' := hright.ne_global hr
  have ho' := Nat.lt_of_le_of_lt h.opened ho
  refine ⟨hleft.release hl, hright.release hr, ?_, fun a b hp => ?_, h.counted.release hlive hglobal ho,
    h.counted'.release hlive' hglobal' ho', ?_⟩
  · cases h.linked with
    | paired pair left right twin rest =>
      refine rest.congr (fun _ _ hp => hp) (fun i hi => ?_) fun i hi => ?_
      · rw [scope?_release hlive hglobal, if_neg (ne_of_mem_of_not_mem hi (List.nodup_cons.1 hleft.nodup).1)]
      · rw [scope?_release hlive' hglobal', if_neg (ne_of_mem_of_not_mem hi (List.nodup_cons.1 hright.nodup).1)]
  · rcases h.past a b hp with hm | ⟨ha, hb⟩
    · rcases List.mem_cons.1 hm with he | hm
      · cases he
        exact .inr ⟨h.counted.past_release hlive hglobal ho (.inl rfl),
          h.counted'.past_release hlive' hglobal' ho' (.inl rfl)⟩
      · exact .inl hm
    · exact .inr ⟨h.counted.past_release hlive hglobal ho (.inr ha),
        h.counted'.past_release hlive' hglobal' ho' (.inr hb)⟩
  · rw [release_opened, release_opened]
    exact h.opened

/-- The scope on top is released, for which there is none in the second store. -/
theorem releaseExtra (h : Twin ρ ((id, none) :: levels) st st') (hl : lefts levels ≠ []) (ho : st.opened < 2 ^ 32) :
    Twin ρ levels (st.release id) st' := by
  have hleft : st.Stack (id :: lefts levels) := h.left
  have hlive := (hleft.live_iff id).2 List.mem_cons_self
  have hglobal := hleft.ne_global hl
  refine ⟨hleft.release hl, h.right, ?_, fun a b hp => ?_, h.counted.release hlive hglobal ho, h.counted', ?_⟩
  · cases h.linked with
    | extra left rest =>
      refine rest.congr (fun _ _ hp => hp) (fun i hi => ?_) fun i hi => rfl
      rw [scope?_release hlive hglobal, if_neg (ne_of_mem_of_not_mem hi (List.nodup_cons.1 hleft.nodup).1)]
  · rcases h.past a b hp with hm | ⟨ha, hb⟩
    · exact .inl ((List.mem_cons.1 hm).resolve_left nofun)
    · exact .inr ⟨h.counted.past_release hlive hglobal ho (.inr ha), hb⟩
  · rw [release_opened]
    exact h.opened

end ScopeStore.Twin

/-! ## States -/

/-- States of two runs that differ in their scopes only, as levels and pairing say. -/
structure Machine.Twin (ρ : Pairing) (levels : List Level) (m m' : Machine) : Prop where
  scopes : ScopeStore.Twin ρ levels m.scopes m'.scopes
  current : (lefts levels).head? = some m.current
  current' : (rights levels).head? = some m'.current
  callDepth : m.callDepth = m'.callDepth
  heap : m.heap.Related (Closure.Twin ρ) m'.heap
  output : m.output = m'.output
  declarations : m.declarations = m'.declarations

namespace Machine.Twin

variable {ρ : Pairing} {m m' : Machine} {levels : List Level} {id id' p p' : ScopeId} {v w : Value}

/-- Both runs enter a scope, inside scopes that stand for each other and with related values in it. -/
theorem enter (h : m.Twin ρ levels m') (hp : (p, some p') ∈ levels) {xs ys : List (String × Value)}
    (hb : List.Forall₂ (Value.RelatedEntry (Closure.Twin ρ)) xs ys) :
    (m.enter p xs).Twin (fun a b => ρ a b ∨ a = (m.enter p xs).current ∧ b = (m'.enter p' ys).current)
      (((m.enter p xs).current, some (m'.enter p' ys).current) :: levels) (m'.enter p' ys) := by
  have hleft := Machine.enter_stack h.scopes.left p xs
  have hright := Machine.enter_stack h.scopes.right p' ys
  have hrelated : ∀ f g : Closure, f.Twin ρ g →
      f.Twin (fun a b => ρ a b ∨ a = (m.enter p xs).current ∧ b = (m'.enter p' ys).current) g :=
    fun f g hf => hf.mono fun _ _ => .inl
  obtain ⟨-, -, -, hnew, hother⟩ := EvalM.enter_spec h.scopes.left.consistent p xs
  obtain ⟨-, -, -, hnew', hother'⟩ := EvalM.enter_spec h.scopes.right.consistent p' ys
  refine ⟨⟨hleft, hright, ?_, fun a b hab => ?_, Machine.enter_counted h.scopes.left.consistent h.scopes.counted p xs,
    Machine.enter_counted h.scopes.right.consistent h.scopes.counted' p' ys, ?_⟩, rfl, rfl, h.callDepth,
    h.heap.mono hrelated, h.output, h.declarations⟩
  · refine .paired (.inr ⟨rfl, rfl⟩) hnew hnew' ⟨?_, .some hp⟩ (h.scopes.linked.congr (fun _ _ => .inl) ?_ ?_)
    · exact Bindings.Related.mono hrelated (Bindings.Matched.insertAll hb .empty)
    · exact fun i hi => hother i (ne_of_mem_of_not_mem hi (List.nodup_cons.1 hleft.nodup).1)
    · exact fun i hi => hother' i (ne_of_mem_of_not_mem hi (List.nodup_cons.1 hright.nodup).1)
  · rcases hab with hab | ⟨rfl, rfl⟩
    · rcases h.scopes.past a b hab with hm | ⟨ha, hb⟩
      · exact .inl (List.mem_cons_of_mem _ hm)
      · exact .inr ⟨Machine.enter_past ha p xs, Machine.enter_past hb p' ys⟩
    · exact .inl List.mem_cons_self
  · rw [EvalM.enter_opened, EvalM.enter_opened]
    exact Nat.succ_le_succ h.scopes.opened

/-- The first run enters a scope between braces that the second run does not have. -/
theorem enterExtra (h : m.Twin ρ ((id, some id') :: levels) m') :
    (m.enter id []).Twin ρ (((m.enter id []).current, none) :: (id, some id') :: levels) m' := by
  have hleft := Machine.enter_stack h.scopes.left id []
  obtain ⟨-, -, -, hnew, hother⟩ := EvalM.enter_spec h.scopes.left.consistent id []
  refine ⟨⟨hleft, h.scopes.right, .extra hnew (h.scopes.linked.congr (fun _ _ hp => hp) ?_ fun _ _ => rfl),
    fun a b hab => ?_, Machine.enter_counted h.scopes.left.consistent h.scopes.counted id [], h.scopes.counted', ?_⟩,
    rfl, h.current', h.callDepth, h.heap, h.output, h.declarations⟩
  · exact fun i hi => hother i (ne_of_mem_of_not_mem hi (List.nodup_cons.1 hleft.nodup).1)
  · rcases h.scopes.past a b hab with hm | ⟨ha, hb⟩
    · exact .inl (List.mem_cons_of_mem _ hm)
    · exact .inr ⟨Machine.enter_past ha id [], hb⟩
  · rw [EvalM.enter_opened]
    exact Nat.le_succ_of_le h.scopes.opened

theorem leave (h : m.Twin ρ ((id, some id') :: levels) m') (hp : (lefts levels).head? = some p)
    (hp' : (rights levels).head? = some p') (ho : m.scopes.opened < 2 ^ 32) :
    (m.leave p).Twin ρ levels (m'.leave p') := by
  have hid : id = m.current := Option.some.inj h.current
  have hid' : id' = m'.current := Option.some.inj h.current'
  have hl : lefts levels ≠ [] := fun he => by
    rw [he] at hp
    cases hp
  have hr : rights levels ≠ [] := fun he => by
    rw [he] at hp'
    cases hp'
  refine ⟨?_, hp, hp', h.callDepth, h.heap, h.output, h.declarations⟩
  show ScopeStore.Twin ρ levels (m.scopes.release m.current) (m'.scopes.release m'.current)
  rw [← hid, ← hid']
  exact h.scopes.release hl hr ho

theorem leaveExtra (h : m.Twin ρ ((id, none) :: levels) m') (hp : (lefts levels).head? = some p)
    (ho : m.scopes.opened < 2 ^ 32) : (m.leave p).Twin ρ levels m' := by
  have hid : id = m.current := Option.some.inj h.current
  have hl : lefts levels ≠ [] := fun he => by
    rw [he] at hp
    cases hp
  refine ⟨?_, hp, h.current', h.callDepth, h.heap, h.output, h.declarations⟩
  show ScopeStore.Twin ρ levels (m.scopes.release m.current) m'.scopes
  rw [← hid]
  exact h.scopes.releaseExtra hl ho

/-- Both runs bind a name to related values. -/
theorem define (h : m.Twin ρ ((id, some id') :: levels) m') (hv : v.Twin ρ w) (name : String) :
    Machine.Twin ρ ((id, some id') :: levels) { m with scopes := m.scopes.define m.current name v }
      { m' with scopes := m'.scopes.define m'.current name w } := by
  have hid : id = m.current := Option.some.inj h.current
  have hid' : id' = m'.current := Option.some.inj h.current'
  obtain ⟨s, s', hs, hs', -, -⟩ := h.scopes.linked.scopes List.mem_cons_self
  refine ⟨?_, h.current, h.current', h.callDepth, h.heap, h.output, h.declarations⟩
  rw [← hid, ← hid', ScopeStore.define_eq_of_live hs, ScopeStore.define_eq_of_live hs']
  exact h.scopes.insert List.mem_cons_self hs hs' name hv

/-- A name is bound in scopes that stand for each other, or not at all. -/
theorem binder? (h : m.Twin ρ levels m') (name : String) :
    Levels.Found ρ levels (m.scopes.binder? m.current name) (m'.scopes.binder? m'.current name) := by
  have hl := h.scopes.left.length_le
  have hr := h.scopes.right.length_le
  have hcurrent := h.current
  have hcurrent' := h.current'
  unfold ScopeStore.binder?
  cases h.scopes.linked with
  | nil => cases hcurrent
  | @paired id id' s s' levels pair left right twin rest =>
    cases hcurrent
    cases hcurrent'
    exact h.scopes.linked.binderWithin List.mem_cons_self name hl hr
  | @extra id p p' levels left rest =>
    cases hcurrent
    cases hcurrent'
    rw [lefts_cons, List.length_cons] at hl
    obtain ⟨k, hk⟩ : ∃ k, m.scopes.slots.size = k + 1 := ⟨m.scopes.slots.size - 1, by omega⟩
    rw [hk, ScopeStore.binderWithin_of_empty left]
    refine (rest.binderWithin List.mem_cons_self name ?_ hr).cons _
    omega

theorem lookup (h : m.Twin ρ levels m') (name : String) :
    Option.Rel (Value.Twin ρ) (m.scopes.lookup m.current name) (m'.scopes.lookup m'.current name) := by
  have hb := h.binder? name
  unfold ScopeStore.lookup
  revert hb
  generalize m.scopes.binder? m.current name = x
  generalize m'.scopes.binder? m'.current name = y
  intro hb
  cases hb with
  | none => exact .none
  | some hb => exact hb.2.find? name

end Machine.Twin

end QueryTemplate
