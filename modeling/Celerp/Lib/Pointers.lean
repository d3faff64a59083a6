/-
  Following pointers: a partial function `next` and the nodes it leads to.

  * `Goes next a b`: one pointer leads from `a` to `b`, and `Reaches` any number of them;
    `Acyclic` where no node leads back to itself;
  * `climb next fuel seen node` follows the pointers until they end or come to a node seen
    before; where they end, no node seen is reached (`not_reaches_of_climb`), and with
    fuel for the nodes that point somewhere it stops for no other reason (`climb_succ`);
  * `restAt` follows them to where they end or come to a node passed before, and a climb
    from there rests there (`restAt_restAt`);
  * a trail is a list each member of which points to the next; what the nodes pointing to
    `m` come to on a trail is what `m` does (`sum_trail`);
  * pointing one node elsewhere keeps acyclicity where the new target does not lead back
    to it (`acyclic_repoint`).
-/
import Mathlib.Algebra.BigOperators.Group.List.Basic
import Mathlib.Data.List.Basic
import Mathlib.Logic.Relation
import Mathlib.Logic.Function.Basic

namespace Pointers

open Relation

variable {α : Type*}

/-- One pointer leads from `a` to `b`. -/
def Goes (next : α → Option α) (a b : α) : Prop := next a = some b

/-- Any number of pointers lead from `a` to `b`. -/
def Reaches (next : α → Option α) : α → α → Prop := ReflTransGen (Goes next)

/-- No node leads back to itself. -/
def Acyclic (next : α → Option α) : Prop := ∀ a, ¬TransGen (Goes next) a a

section
variable [DecidableEq α]

/-- Follow the pointers from a node until they end or come to a node seen: the node they
    came to. -/
def climb (next : α → Option α) : ℕ → List α → Option α → Option α
  | _, _, none => none
  | 0, _, some a => some a
  | fuel + 1, seen, some a => if a ∈ seen then some a else climb next fuel (a :: seen) (next a)

variable {next : α → Option α} {fuel : ℕ} {seen : List α} {a b p : α}

/-- Where the pointers end, they lead to no node seen. -/
theorem not_reaches_of_climb (h : climb next fuel seen (some a) = none) (hab : Reaches next a b) : b ∉ seen := by
  induction fuel generalizing seen a with
  | zero => simp [climb] at h
  | succ fuel ih =>
    rw [climb] at h
    split_ifs at h with hseen
    rcases ReflTransGen.cases_head hab with rfl | ⟨c, hc, hcb⟩
    · exact hseen
    · rw [Goes] at hc
      rw [hc] at h
      exact fun hb => ih h hcb (List.mem_cons_of_mem a hb)

/-- The fuel a climb needs: one for each node that points somewhere and is not seen yet,
    and one for the node it ends at. -/
def unseen (nodes seen : List α) : ℕ := (nodes.filter fun n => n ∉ seen).length + 1

theorem unseen_cons_lt {nodes : List α} (ha : a ∈ nodes) (hseen : a ∉ seen) :
    unseen nodes (a :: seen) < unseen nodes seen := by
  have hsub : (nodes.filter fun n => n ∉ a :: seen).Sublist (nodes.filter fun n => n ∉ seen) := by
    refine List.monotone_filter_right _ fun n hn => ?_
    simp only [List.mem_cons, not_or, decide_eq_true_eq] at hn ⊢
    exact hn.2
  have hne : (nodes.filter fun n => n ∉ a :: seen) ≠ nodes.filter fun n => n ∉ seen := by
    intro heq
    have hmem : a ∈ nodes.filter fun n => n ∉ seen := by simp [ha, hseen]
    rw [← heq] at hmem
    simp at hmem
  have hlt := Nat.lt_of_le_of_ne hsub.length_le fun hlength => hne (hsub.eq_of_length hlength)
  exact Nat.add_lt_add_right hlt 1

/-- More fuel than that changes nothing. -/
theorem climb_succ {nodes : List α} (hnodes : ∀ a, next a ≠ none → a ∈ nodes) {node : Option α}
    (hfuel : unseen nodes seen ≤ fuel) : climb next (fuel + 1) seen node = climb next fuel seen node := by
  induction fuel generalizing seen node with
  | zero => exact absurd hfuel (by simp [unseen])
  | succ fuel ih =>
    cases node with
    | none => simp [climb]
    | some a =>
      conv_lhs => rw [climb]
      conv_rhs => rw [climb]
      split_ifs with hseen
      · rfl
      · cases hnext : next a with
        | none => simp [climb]
        | some b =>
          have ha := hnodes a (by simp [hnext])
          exact ih (by have := unseen_cons_lt ha hseen; omega)

end

/-! ## Where pointers rest -/

section
variable {next : α → Option α} {a b r : α}

/-- What a node on a circle leads to leads back to it. -/
theorem reaches_back (hr : TransGen (Goes next) r r) (ha : Reaches next r a) : Reaches next a r := by
  induction ha with
  | refl => exact .refl
  | @tail b c _ hbc ih =>
    have hcircle : TransGen (Goes next) b r := by
      rcases reflTransGen_iff_eq_or_transGen.1 ih with rfl | hbr
      · exact hr
      · exact hbr
    obtain ⟨d, hbd, hdr⟩ := TransGen.head'_iff.1 hcircle
    obtain rfl : d = c := by
      rw [Goes] at hbd hbc
      rw [hbd] at hbc
      exact Option.some.inj hbc
    exact hdr

end

section
variable [DecidableEq α] {next : α → Option α} {fuel : ℕ} {seen nodes : List α} {a b r : α}

/-- Follow the pointers from a node until they end or come to a node passed before: the
    node they rest at. -/
def restAt (next : α → Option α) : ℕ → List α → α → α
  | 0, _, a => a
  | fuel + 1, seen, a =>
    if a ∈ seen then a else match next a with
    | none => a
    | some b => restAt next fuel (a :: seen) b

/-- The pointers without that of `r`. -/
def cut (r : α) (next : α → Option α) (a : α) : Option α := if a = r then none else next a

theorem reaches_cut (h : Reaches next a r) : Reaches (cut r next) a r := by
  induction h using ReflTransGen.head_induction_on with
  | refl => exact .refl
  | @head a b hab _ ih =>
    by_cases ha : a = r
    · rw [ha]
      exact .refl
    · refine ReflTransGen.head ?_ ih
      rw [Goes, cut, if_neg ha]
      exact hab

/-- Without the pointer of `r`, no node that leads to `r` lies on a circle. -/
theorem not_circle_cut (h : Reaches next a r) : ¬TransGen (Goes (cut r next)) a a := by
  intro hcircle
  have hend : cut r next r = none := if_pos rfl
  have hback := reaches_back hcircle (reaches_cut h)
  have hon : TransGen (Goes (cut r next)) r a := by
    rcases reflTransGen_iff_eq_or_transGen.1 hback with rfl | hra
    · exact hcircle
    · exact hra
  obtain ⟨b, hb, -⟩ := TransGen.head'_iff.1 hon
  rw [Goes, hend] at hb
  cases hb

theorem reaches_restAt : Reaches next a (restAt next fuel seen a) := by
  induction fuel generalizing seen a with
  | zero => exact .refl
  | succ fuel ih =>
    unfold restAt
    split_ifs
    · exact .refl
    · cases hnext : next a with
      | none => exact .refl
      | some b => exact ReflTransGen.head hnext ih

/-- A climb with fuel for the nodes that point somewhere rests where the pointers end or
    on a circle. -/
theorem restAt_rests (hnodes : ∀ a, next a ≠ none → a ∈ nodes) (hfuel : unseen nodes seen ≤ fuel)
    (hseen : ∀ s ∈ seen, TransGen (Goes next) s a) :
    next (restAt next fuel seen a) = none ∨
      TransGen (Goes next) (restAt next fuel seen a) (restAt next fuel seen a) := by
  induction fuel generalizing seen a with
  | zero => exact absurd hfuel (by simp [unseen])
  | succ fuel ih =>
    unfold restAt
    split_ifs with hmem
    · exact Or.inr (hseen a hmem)
    · cases hnext : next a with
      | none => exact Or.inl hnext
      | some b =>
        have hlt := unseen_cons_lt (hnodes a (by simp [hnext])) hmem
        refine ih (by omega) ?_
        intro s hs
        rcases List.mem_cons.1 hs with rfl | hs
        · exact .single hnext
        · exact (hseen s hs).tail hnext

/-- On a circle a climb comes back to the node it started from. -/
theorem restAt_circle (hr : TransGen (Goes next) r r) (hnodes : ∀ a, next a ≠ none → a ∈ nodes)
    (hfuel : unseen nodes seen ≤ fuel) (ha : Reaches next r a) (hstart : r ∈ seen ∨ seen = [] ∧ a = r)
    (hseen : ∀ s ∈ seen, s = r ∨ TransGen (Goes (cut r next)) s a) : restAt next fuel seen a = r := by
  have hback := reaches_back hr ha
  induction fuel generalizing seen a with
  | zero => exact absurd hfuel (by simp [unseen])
  | succ fuel ih =>
    unfold restAt
    split_ifs with hmem
    · rcases hseen a hmem with rfl | hcircle
      · rfl
      · exact absurd hcircle (not_circle_cut hback)
    · cases hnext : next a with
      | none =>
        rcases ReflTransGen.cases_head hback with rfl | ⟨b, hb, -⟩
        · rfl
        · rw [Goes, hnext] at hb
          cases hb
      | some b =>
        have hlt := unseen_cons_lt (hnodes a (by simp [hnext])) hmem
        have hb : Reaches next r b := ha.tail hnext
        refine ih (by omega) hb (Or.inl ?_) ?_ (reaches_back hr hb)
        · rcases hstart with hrs | ⟨-, rfl⟩
          · exact List.mem_cons_of_mem a hrs
          · exact List.mem_cons_self
        · intro s hs
          by_cases hne : s = r
          · exact Or.inl hne
          · have har : a ≠ r := by
              rintro rfl
              rcases hstart with hrs | ⟨rfl, -⟩
              · exact hmem hrs
              · exact hne (List.mem_singleton.1 hs)
            have hgoes : Goes (cut r next) a b := by
              rw [Goes, cut, if_neg har]
              exact hnext
            rcases List.mem_cons.1 hs with rfl | hs
            · exact Or.inr (.single hgoes)
            · exact Or.inr (((hseen s hs).resolve_left hne).tail hgoes)

/-- **A node a climb rests at is where a climb from it rests.** -/
theorem restAt_restAt (hnodes : ∀ a, next a ≠ none → a ∈ nodes) (hfuel : unseen nodes [] ≤ fuel) :
    restAt next fuel [] (restAt next fuel [] a) = restAt next fuel [] a := by
  rcases restAt_rests (a := a) hnodes hfuel (by simp) with hend | hcircle
  · cases fuel with
    | zero => rfl
    | succ fuel =>
      conv_lhs => rw [restAt]
      rw [if_neg List.not_mem_nil, hend]
  · exact restAt_circle hcircle hnodes hfuel .refl (Or.inr ⟨rfl, rfl⟩) (by simp)

end

/-! ## Trails -/

section
variable {β : Type*} [AddCommMonoid β] [DecidableEq α] {next : α → Option α} {trail nodes : List α} {m : α} {d : β}

theorem sum_ite_eq_of_nodup (h : nodes.Nodup) (a : α) :
    (nodes.map fun p => if p = a then d else 0).sum = if a ∈ nodes then d else 0 := by
  induction nodes with
  | nil => rfl
  | cons p nodes ih =>
    rw [List.nodup_cons] at h
    rw [List.map_cons, List.sum_cons, ih h.2]
    by_cases hp : p = a
    · subst hp
      rw [if_pos rfl, if_neg h.1, if_pos List.mem_cons_self, add_zero]
    · simp [hp, Ne.symm hp]

/-- **The nodes that point to one come to what it does**, on a trail that does not end in
    front of it. -/
theorem sum_trail (hnodup : trail.Nodup) (htrail : trail.IsChain (Goes next))
    (hlast : ∀ a ∈ trail.getLast?, ¬Goes next a m) (hnodes : nodes.Nodup) (hmem : ∀ p, p ∈ nodes ↔ Goes next p m) :
    (nodes.map fun p => if p ∈ trail then d else 0).sum = if m ∈ trail.tail then d else 0 := by
  induction trail with
  | nil => simp
  | cons a trail ih =>
    rw [List.nodup_cons] at hnodup
    have hsplit : (nodes.map fun p => if p ∈ a :: trail then d else 0).sum =
        (nodes.map fun p => if p = a then d else 0).sum + (nodes.map fun p => if p ∈ trail then d else 0).sum := by
      rw [← List.sum_map_add]
      congr 1
      refine List.map_congr_left fun p _ => ?_
      by_cases hp : p = a
      · subst hp
        simp [hnodup.1]
      · simp [hp]
    rw [hsplit, sum_ite_eq_of_nodup hnodes]
    cases trail with
    | nil =>
      have ha : a ∉ nodes := fun h => hlast a rfl ((hmem a).1 h)
      simp [ha]
    | cons b trail =>
      rw [List.isChain_cons_cons] at htrail
      rw [ih hnodup.2 htrail.2 fun c hc => hlast c (by simpa using hc), List.tail_cons, List.tail_cons]
      have hb : b ∉ trail := (List.nodup_cons.1 hnodup.2).1
      by_cases ha : a ∈ nodes
      · have hab : b = m := by
          have := (hmem a).1 ha
          rw [Goes, htrail.1] at this
          exact Option.some.inj this
        subst hab
        simp [ha, hb]
      · have hab : m ≠ b := by
          rintro rfl
          exact ha ((hmem a).2 htrail.1)
        simp [ha, hab]

end

/-! ## Pointing a node elsewhere -/

section
variable {r r' : α → α → Prop} {c p : α}

/-- Fewer pointers make no cycle. -/
theorem acyclic_mono (h : ∀ a, ¬TransGen r a a) (hr : ∀ a b, r' a b → r a b) : ∀ a, ¬TransGen r' a a :=
  fun a ha => h a (TransGen.mono hr a a ha)

/-- A path over pointers one of which was moved: over the old ones, or through the moved
    one. -/
theorem transGen_repoint (hr : ∀ a b, r' a b → (a = c ∧ b = p) ∨ r a b) (hp : ¬ReflTransGen r p c) {a b : α}
    (h : TransGen r' a b) : TransGen r a b ∨ ReflTransGen r a c ∧ ReflTransGen r p b := by
  induction h with
  | single hab =>
    rcases hr _ _ hab with ⟨rfl, rfl⟩ | hab
    · exact Or.inr ⟨.refl, .refl⟩
    · exact Or.inl (.single hab)
  | tail _ hbd ih =>
    rcases hr _ _ hbd with ⟨rfl, rfl⟩ | hbd
    · rcases ih with hac | ⟨-, hpc⟩
      · exact Or.inr ⟨hac.to_reflTransGen, .refl⟩
      · exact absurd hpc hp
    · rcases ih with hab | ⟨hac, hpb⟩
      · exact Or.inl (hab.tail hbd)
      · exact Or.inr ⟨hac, hpb.tail hbd⟩

/-- **Pointing one node elsewhere makes no cycle** where the new target does not lead back
    to it. -/
theorem acyclic_repoint (h : ∀ a, ¬TransGen r a a) (hr : ∀ a b, r' a b → (a = c ∧ b = p) ∨ r a b)
    (hp : ¬ReflTransGen r p c) : ∀ a, ¬TransGen r' a a := by
  intro a ha
  rcases transGen_repoint hr hp ha with haa | ⟨hac, hpa⟩
  · exact h a haa
  · exact hp (hpa.trans hac)

end

end Pointers
