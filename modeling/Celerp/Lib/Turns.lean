/-
  Takers served in turn.

  Each of a list of takers takes, of the goods nobody before took, the first of the best rank
  (`turns`).  Goods are told apart by a key.

  * `mem_turns`: what is taken has a rank for its taker; `nodup_turns`: no good is taken
    twice; `sublist_turns`: the takers are served in order, none twice;
  * `served_or_taken`: a taker takes a good at least as good as any, unless that one was
    taken before its turn.
-/
import Mathlib.Data.List.Induction
import Mathlib.Data.List.Nodup
import Mathlib.Order.Lattice

namespace Turns

variable {α β κ ρ : Type*} [LinearOrder ρ] [DecidableEq κ]

/-- The first of the best among goods that are free, from a best so far on. -/
def bestOf (rank : β → Option ρ) (free : β → Bool) : Option (β × ρ) → List β → Option (β × ρ)
  | best, [] => best
  | best, b :: bs =>
    if free b then
      match rank b with
      | some r => bestOf rank free (if best.all (r < ·.2) then some (b, r) else best) bs
      | none => bestOf rank free best bs
    else bestOf rank free best bs

/-- The keys of what is taken. -/
def takenKeys (key : β → κ) (given : List (α × β × ρ)) : List κ := given.map fun x => key x.2.1

/-- One taker's turn. -/
def turn (rank : α → β → Option ρ) (key : β → κ) (goods : List β) (given : List (α × β × ρ)) (a : α) :
    List (α × β × ρ) :=
  match bestOf (rank a) (fun b => key b ∉ takenKeys key given) none goods with
  | some (b, r) => given ++ [(a, b, r)]
  | none => given

/-- What the takers take, in turn. -/
def turns (rank : α → β → Option ρ) (key : β → κ) (goods : List β) (takers : List α) :
    List (α × β × ρ) :=
  takers.foldl (turn rank key goods) []

section
variable {rank : β → Option ρ} {free : β → Bool} {best : Option (β × ρ)} {bs : List β} {b : β} {r : ρ}

/-- What is found is the best so far, or a free good with its rank. -/
theorem of_bestOf (h : bestOf rank free best bs = some (b, r)) :
    best = some (b, r) ∨ b ∈ bs ∧ free b = true ∧ rank b = some r := by
  induction bs generalizing best with
  | nil => exact .inl h
  | cons b' bs ih =>
    rw [bestOf] at h
    split_ifs at h with hfree
    · cases hrank : rank b' with
      | none =>
        simp only [hrank] at h
        exact (ih h).imp_right fun hmem => ⟨List.mem_cons_of_mem _ hmem.1, hmem.2⟩
      | some r' =>
        simp only [hrank] at h
        rcases ih h with hbest | hmem
        · split_ifs at hbest
          · obtain ⟨rfl, rfl⟩ := Prod.mk.inj (Option.some.inj hbest)
            exact .inr ⟨List.mem_cons_self, hfree, hrank⟩
          · exact .inl hbest
        · exact .inr ⟨List.mem_cons_of_mem _ hmem.1, hmem.2⟩
    · exact (ih h).imp_right fun hmem => ⟨List.mem_cons_of_mem _ hmem.1, hmem.2⟩

/-- What is found is no worse than the best so far. -/
theorem bestOf_le_best (h : best = some (b, r)) : ∃ b' r', bestOf rank free best bs = some (b', r') ∧ r' ≤ r := by
  induction bs generalizing best b r with
  | nil => exact ⟨b, r, h, le_rfl⟩
  | cons b' bs ih =>
    rw [bestOf]
    split_ifs with hfree
    · cases hrank : rank b' with
      | none => exact ih h
      | some r' =>
        dsimp only
        by_cases hlt : r' < r
        · rw [if_pos (by simp [h, hlt])]
          obtain ⟨b'', r'', hbest, hle⟩ := ih rfl
          exact ⟨b'', r'', hbest, hle.trans hlt.le⟩
        · rw [if_neg (by simp [h, hlt])]
          exact ih h
    · exact ih h

/-- What is found is no worse than any free good. -/
theorem bestOf_le (hb : b ∈ bs) (hfree : free b = true) (hrank : rank b = some r) :
    ∃ b' r', bestOf rank free best bs = some (b', r') ∧ r' ≤ r := by
  induction bs generalizing best with
  | nil => exact absurd hb List.not_mem_nil
  | cons b' bs ih =>
    rw [bestOf]
    rcases List.mem_cons.1 hb with rfl | hmem
    · rw [if_pos hfree, hrank]
      dsimp only
      split_ifs with hbetter
      · exact bestOf_le_best rfl
      · obtain ⟨b'', r'', hbest, hle⟩ : ∃ b'' r'', best = some (b'', r'') ∧ r'' ≤ r := by
          cases hbest : best with
          | none => simp [hbest] at hbetter
          | some x =>
            refine ⟨x.1, x.2, rfl, ?_⟩
            simpa [hbest] using hbetter
        obtain ⟨b₁, r₁, hfound, hle₁⟩ := bestOf_le_best hbest
        exact ⟨b₁, r₁, hfound, hle₁.trans hle⟩
    · split_ifs
      · cases rank b' with
        | none => exact ih hmem
        | some r' => exact ih hmem
      · exact ih hmem

end

section
variable (rank : α → β → Option ρ) (key : β → κ) (goods : List β)

/-- A taker takes nothing, or a good nobody took that has a rank for it. -/
theorem turn_cases (given : List (α × β × ρ)) (a : α) :
    turn rank key goods given a = given ∨
      ∃ b r, turn rank key goods given a = given ++ [(a, b, r)] ∧ b ∈ goods ∧ key b ∉ takenKeys key given ∧
        rank a b = some r := by
  unfold turn
  cases hbest : bestOf (rank a) (fun b => key b ∉ takenKeys key given) none goods with
  | none => exact .inl rfl
  | some found =>
    obtain ⟨hmem, hfree, hrank⟩ := (of_bestOf hbest).resolve_left (by simp)
    exact .inr ⟨found.1, found.2, rfl, hmem, of_decide_eq_true hfree, hrank⟩

theorem turns_append (before : List α) (a : α) :
    turns rank key goods (before ++ [a]) = turn rank key goods (turns rank key goods before) a := by
  rw [turns, List.foldl_append]
  rfl

/-- What was taken stays taken. -/
theorem turns_prefix (before after : List α) :
    turns rank key goods before <+: turns rank key goods (before ++ after) := by
  induction after generalizing before with
  | nil => simp only [List.append_nil, List.prefix_rfl]
  | cons a after ih =>
    have hstep : turns rank key goods before <+: turns rank key goods (before ++ [a]) := by
      rw [turns_append]
      rcases turn_cases rank key goods (turns rank key goods before) a with hsame | ⟨b, r, htook, -⟩
      · simp only [hsame, List.prefix_rfl]
      · rw [htook]
        exact List.prefix_append _ _
    have hrest := ih (before ++ [a])
    rw [List.append_assoc] at hrest
    exact hstep.trans hrest

/-- What is taken is a good with its rank for a taker. -/
theorem mem_turns {takers : List α} {x : α × β × ρ} (hx : x ∈ turns rank key goods takers) :
    x.1 ∈ takers ∧ x.2.1 ∈ goods ∧ rank x.1 x.2.1 = some x.2.2 := by
  induction takers using List.reverseRecOn with
  | nil => exact absurd hx List.not_mem_nil
  | append_singleton takers a ih =>
    have hlater : x ∈ turns rank key goods takers →
        x.1 ∈ takers ++ [a] ∧ x.2.1 ∈ goods ∧ rank x.1 x.2.1 = some x.2.2 :=
      fun h => ⟨List.mem_append_left _ (ih h).1, (ih h).2⟩
    rw [turns_append] at hx
    rcases turn_cases rank key goods (turns rank key goods takers) a with hsame | ⟨b, r, htook, hb, -, hrank⟩
    · rw [hsame] at hx
      exact hlater hx
    · rw [htook] at hx
      rcases List.mem_append.1 hx with hold | hnew
      · exact hlater hold
      · obtain rfl := List.mem_singleton.1 hnew
        exact ⟨List.mem_append_right _ (List.mem_singleton_self a), hb, hrank⟩

/-- **No good is taken twice.** -/
theorem nodup_turns (takers : List α) : (takenKeys key (turns rank key goods takers)).Nodup := by
  induction takers using List.reverseRecOn with
  | nil => exact List.nodup_nil
  | append_singleton takers a ih =>
    rw [turns_append]
    rcases turn_cases rank key goods (turns rank key goods takers) a with hsame | ⟨b, r, htook, -, hfree, -⟩
    · rw [hsame]
      exact ih
    · rw [htook, takenKeys, List.map_append, List.nodup_append]
      refine ⟨ih, List.nodup_singleton _, ?_⟩
      rintro k hk k' hk' rfl
      obtain rfl : k = key b := List.mem_singleton.1 hk'
      exact hfree hk

/-- **The takers are served in order**, none twice. -/
theorem sublist_turns (takers : List α) : ((turns rank key goods takers).map Prod.fst).Sublist takers := by
  induction takers using List.reverseRecOn with
  | nil => exact List.Sublist.refl _
  | append_singleton takers a ih =>
    rw [turns_append]
    rcases turn_cases rank key goods (turns rank key goods takers) a with hsame | ⟨b, r, htook, -⟩
    · rw [hsame]
      exact ih.trans (List.sublist_append_left _ _)
    · rw [htook, List.map_append]
      exact ih.append (List.Sublist.refl _)

/-- **A taker takes a good at least as good as any**, unless that one was taken before its
    turn. -/
theorem served_or_taken (before after : List α) {a : α} {b : β} {r : ρ} (hb : b ∈ goods)
    (hrank : rank a b = some r) :
    (∃ b' r', (a, b', r') ∈ turns rank key goods (before ++ a :: after) ∧ r' ≤ r) ∨
      ∃ x ∈ turns rank key goods before, key x.2.1 = key b := by
  by_cases hfree : key b ∈ takenKeys key (turns rank key goods before)
  · obtain ⟨x, hx, heq⟩ := List.mem_map.1 hfree
    exact .inr ⟨x, hx, heq⟩
  · obtain ⟨b', r', hfound, hle⟩ : ∃ b' r', bestOf (rank a)
        (fun b => key b ∉ takenKeys key (turns rank key goods before)) none goods = some (b', r') ∧ r' ≤ r :=
      bestOf_le hb (decide_eq_true hfree) hrank
    have hturn : (a, b', r') ∈ turns rank key goods (before ++ [a]) := by
      rw [turns_append, turn, hfound]
      exact List.mem_append_right _ (List.mem_singleton_self _)
    have hlater := turns_prefix rank key goods (before ++ [a]) after
    rw [List.append_assoc] at hlater
    exact .inl ⟨b', r', hlater.subset hturn, hle⟩

end

end Turns
