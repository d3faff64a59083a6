/-
  Rows that each may undo an older row, and which of them still stand.

  A row has an id and may name the id of the row it undoes.  An undoing stands while it is
  live and no undoing of it stands.

  * `standing live n rows a`: the undoings of `a` that stand, to a depth of `n`;
    `standingAfter live rows a`: the same over rows in the order they were written, where a
    row comes after the one it undoes (`Founded`), so that no depth is needed
    (`mem_standing_iff`);
  * `chain rows a`: the rows `a` leads to and all rows under those.  It is `Closed`: with a
    row it has the one it undoes and all that undo it.  So which undoings of its rows stand
    can be read off it (`mem_standing_of_closed`), and nothing else tells which undoings of
    the rows outside it do (`mem_standing_congr`).
-/
import Mathlib.Data.List.Basic
import Mathlib.Data.List.Nodup
import Mathlib.Data.List.Infix
import Mathlib.Data.List.Perm.Subperm

namespace Chains

variable {ρ α : Type*} (id : ρ → α) (target : ρ → Option α)

/-! ## The order rows are written in -/

/-- Each row comes after the one it undoes, and no two rows have one id. -/
def Founded : List α → List ρ → Prop
  | _, [] => True
  | seen, r :: rest => id r ∉ seen ∧ (∀ a ∈ target r, a ∈ seen) ∧ Founded (id r :: seen) rest

section
variable {id target} {rows rest pre : List ρ} {seen : List α} {r : ρ} {a : α}

theorem founded_append : Founded id target seen (pre ++ rest) ↔
    Founded id target seen pre ∧ Founded id target ((pre.map id).reverse ++ seen) rest := by
  induction pre generalizing seen with
  | nil => simp [Founded]
  | cons s pre ih =>
    simp only [List.cons_append, Founded, ih, List.map_cons, List.reverse_cons, List.append_assoc, List.nil_append]
    tauto

theorem founded_map {f : ρ → ρ} (hid : ∀ r, id (f r) = id r) (htarget : ∀ r, target (f r) = target r) :
    Founded id target seen (rows.map f) ↔ Founded id target seen rows := by
  induction rows generalizing seen with
  | nil => exact Iff.rfl
  | cons s rows ih => simp only [List.map_cons, Founded, hid, htarget, ih]

/-- Rows written later have other ids. -/
theorem Founded.not_mem (h : Founded id target seen rows) (ha : a ∈ seen) : ∀ r ∈ rows, id r ≠ a := by
  induction rows generalizing seen with
  | nil => intro r hr; cases hr
  | cons s rows ih =>
    intro r hr heq
    rcases List.mem_cons.1 hr with rfl | hr
    · exact h.1 (heq ▸ ha)
    · exact ih h.2.2 (List.mem_cons_of_mem _ ha) r hr heq

theorem Founded.nodup (h : Founded id target seen rows) : (rows.map id).Nodup := by
  induction rows generalizing seen with
  | nil => exact List.nodup_nil
  | cons s rows ih =>
    refine List.nodup_cons.2 ⟨fun hmem => ?_, ih h.2.2⟩
    obtain ⟨r, hr, heq⟩ := List.mem_map.1 hmem
    exact h.2.2.not_mem List.mem_cons_self r hr heq

/-- The row a row undoes is one of them. -/
theorem Founded.exists_target (h : Founded id target [] rows) (hr : r ∈ rows) (ha : target r = some a) :
    ∃ p ∈ rows, id p = a := by
  obtain ⟨pre, rest, rfl⟩ := List.append_of_mem hr
  rw [founded_append] at h
  have hseen := h.2.2.1 a ha
  rw [List.append_nil, List.mem_reverse, List.mem_map] at hseen
  obtain ⟨p, hp, heq⟩ := hseen
  exact ⟨p, List.mem_append_left _ hp, heq⟩

/-- A row is undone by rows written after it only. -/
theorem Founded.target_ne (h : Founded id target [] (pre ++ r :: rest)) :
    ∀ s ∈ pre ++ [r], target s ≠ some (id r) := by
  intro s hs heq
  rw [founded_append] at h
  obtain ⟨hpre, hr, hseen, -⟩ := h
  -- what a row before names was written before
  have hbefore : ∀ {seen : List α} {pre : List ρ}, Founded id target seen pre → ∀ s ∈ pre, ∀ a ∈ target s,
      a ∈ (pre.map id).reverse ++ seen := by
    intro seen pre hpre
    induction pre generalizing seen with
    | nil => intro s hs; cases hs
    | cons p pre ih =>
      intro s hs a ha
      rw [List.map_cons, List.reverse_cons, List.append_assoc]
      rcases List.mem_cons.1 hs with rfl | hs
      · exact List.mem_append_right _ (List.mem_cons_of_mem _ (hpre.2.1 a ha))
      · exact ih hpre.2.2 s hs a ha
  rcases List.mem_append.1 hs with hs | hs
  · exact hr (hbefore hpre s hs _ heq)
  · obtain rfl := List.mem_singleton.1 hs
    exact hr (hseen _ heq)

end

/-! ## Undoings that stand -/

variable [DecidableEq α]

/-- The undoings of a row that stand, to a depth of `n`. -/
def standing (live : ρ → Bool) : ℕ → List ρ → α → List ρ
  | 0, _, _ => []
  | n + 1, rows, a => rows.filter fun r => target r = some a ∧ live r ∧ (standing live n rows (id r)).isEmpty

/-- The undoings of a row that stand, of rows in the order they were written. -/
def standingAfter (live : ρ → Bool) : List ρ → α → List ρ
  | [], _ => []
  | r :: rest, a =>
    (if target r = some a ∧ live r ∧ (standingAfter live rest (id r)).isEmpty then [r] else []) ++
      standingAfter live rest a

section
variable {id target} {live live' : ρ → Bool} {rows rest pre : List ρ} {seen : List α} {r : ρ} {a : α} {n : ℕ}

theorem mem_standing_succ : r ∈ standing id target live (n + 1) rows a ↔
    r ∈ rows ∧ target r = some a ∧ live r ∧ standing id target live n rows (id r) = [] := by
  simp [standing]

theorem mem_standingAfter : r ∈ standingAfter id target live rows a ↔
    ∃ pre rest, rows = pre ++ r :: rest ∧ target r = some a ∧ live r ∧
      standingAfter id target live rest (id r) = [] := by
  induction rows with
  | nil => simp [standingAfter]
  | cons s rows ih =>
    rw [standingAfter, List.mem_append, ih]
    constructor
    · rintro (h | ⟨pre, rest, rfl, h⟩)
      · split_ifs at h with hs
        · obtain rfl := List.mem_singleton.1 h
          exact ⟨[], rows, rfl, hs.1, hs.2.1, by simpa using hs.2.2⟩
        · cases h
      · exact ⟨s :: pre, rest, rfl, h⟩
    · rintro ⟨pre, rest, heq, h⟩
      cases pre with
      | nil =>
        obtain ⟨rfl, rfl⟩ := List.cons.inj heq
        exact Or.inl (by simp [h])
      | cons s' pre =>
        obtain ⟨rfl, rfl⟩ := List.cons.inj heq
        exact Or.inr ⟨pre, rest, rfl, h⟩

/-- A row written last that undoes nothing, or is not live, changes nothing. -/
theorem standingAfter_append_dead (h : target r = none ∨ live r = false) :
    standingAfter id target live (rows ++ [r]) a = standingAfter id target live rows a := by
  induction rows generalizing a with
  | nil => rcases h with h | h <;> simp [standingAfter, h]
  | cons s rows ih => rw [List.cons_append, standingAfter, ih, ih, standingAfter]

theorem standingAfter_sublist : (standingAfter id target live rows a).Sublist rows := by
  induction rows with
  | nil => exact List.Sublist.slnil
  | cons s rows ih =>
    rw [standingAfter]
    split_ifs
    · exact ih.cons_cons s
    · exact ih.cons s

theorem mem_standing_of_after (hfounded : Founded id target [] rows) (hpre : ∀ s ∈ pre, target s ≠ some a)
    (hrows : rows = pre ++ rest) (hn : rest.length < n) :
    r ∈ standing id target live n rows a ↔ r ∈ standingAfter id target live rest a := by
  induction n generalizing pre rest a r with
  | zero => omega
  | succ n ih =>
    -- the rows under an undoing come after it
    have hunder : ∀ {s : ρ} {p q : List ρ}, rest = p ++ s :: q →
        (standing id target live n rows (id s) = [] ↔ standingAfter id target live q (id s) = []) := by
      intro s p q hrest
      have hsplit : rows = (pre ++ p ++ [s]) ++ q := by simp [hrows, hrest]
      have hnone : ∀ t ∈ pre ++ p ++ [s], target t ≠ some (id s) := by
        have hfounded' : Founded id target [] ((pre ++ p) ++ s :: q) := by
          rw [hsplit] at hfounded
          simpa using hfounded
        exact hfounded'.target_ne
      have hlength : q.length < n := by
        rw [hrest, List.length_append, List.length_cons] at hn
        omega
      rw [List.eq_nil_iff_forall_not_mem, List.eq_nil_iff_forall_not_mem]
      exact forall_congr' fun t => not_congr (ih hnone hsplit hlength)
    rw [mem_standing_succ, mem_standingAfter]
    constructor
    · rintro ⟨hr, ha, hlive, hstands⟩
      rw [hrows] at hr
      rcases List.mem_append.1 hr with hr | hr
      · exact absurd ha (hpre r hr)
      · obtain ⟨p, q, hrest⟩ := List.append_of_mem hr
        exact ⟨p, q, hrest, ha, hlive, (hunder hrest).1 hstands⟩
    · rintro ⟨p, q, hrest, ha, hlive, hstands⟩
      refine ⟨?_, ha, hlive, (hunder hrest).2 hstands⟩
      simp [hrows, hrest]

/-- A depth of more than the rows reads all undoings that stand. -/
theorem mem_standing_iff (hfounded : Founded id target [] rows) (hn : rows.length < n) :
    r ∈ standing id target live n rows a ↔ r ∈ standingAfter id target live rows a :=
  mem_standing_of_after hfounded (fun s (hs : s ∈ []) => by cases hs) (List.nil_append rows).symm hn

end

/-! ## The rows a row leads to, and all under those -/

/-- The rows from `current` up to the first that undoes none, after those of `nodes`. -/
def above (rows : List ρ) : ℕ → List ρ → Option α → List ρ
  | 0, nodes, _ => nodes
  | _ + 1, nodes, none => nodes
  | fuel + 1, nodes, some a =>
    if a ∈ nodes.map id then nodes
    else match rows.find? (id · = a) with
      | some r => above rows fuel (nodes ++ [r]) (target r)
      | none => nodes

/-- The rows of `nodes` and all rows under those of the frontier. -/
def below (rows : List ρ) : ℕ → List ρ → List α → List ρ
  | 0, nodes, _ => nodes
  | fuel + 1, nodes, frontier =>
    let fresh := rows.filter fun r => (∃ a ∈ target r, a ∈ frontier) ∧ id r ∉ nodes.map id
    if fresh.isEmpty then nodes else below rows fuel (nodes ++ fresh) (fresh.map id)

/-- The rows `a` leads to, and all rows under those. -/
def chain (rows : List ρ) (a : α) : List ρ :=
  let up := above id target rows (rows.length + 1) [] (some a)
  below id target rows (rows.length + 1) up (up.map id)

/-- With a row, the rows it undoes and that undo it. -/
structure Closed (rows nodes : List ρ) : Prop where
  sub : ∀ r ∈ nodes, r ∈ rows
  up : ∀ r ∈ nodes, ∀ p ∈ rows, target r = some (id p) → p ∈ nodes
  down : ∀ r ∈ nodes, ∀ c ∈ rows, target c = some (id r) → c ∈ nodes

section
variable {id target} {rows nodes : List ρ} {r : ρ} {a : α} {fuel : ℕ}

/-- With a row, the row it undoes, but for a row that undoes `current`. -/
structure Climbed (id : ρ → α) (target : ρ → Option α) (rows nodes : List ρ) (current : Option α) : Prop where
  sub : ∀ r ∈ nodes, r ∈ rows
  nodup : (nodes.map id).Nodup
  up : ∀ r ∈ nodes, ∀ p ∈ rows, target r = some (id p) → p ∈ nodes ∨ current = some (id p)

omit [DecidableEq α] in
theorem length_le_of_nodup (hsub : ∀ r ∈ nodes, r ∈ rows) (hnodup : (nodes.map id).Nodup) : nodes.length ≤ rows.length :=
  ((List.Nodup.of_map id hnodup).subperm hsub).length_le

/-- Climbing ends with all rows above. -/
theorem climbed_above (hrows : (rows.map id).Nodup) {current : Option α} (h : Climbed id target rows nodes current)
    (hfuel : rows.length < fuel + nodes.length) :
    Climbed id target rows (above id target rows fuel nodes current) none ∧
      (∀ r ∈ nodes, r ∈ above id target rows fuel nodes current) ∧
        ∀ r ∈ rows, current = some (id r) → r ∈ above id target rows fuel nodes current := by
  have hsame : ∀ {r p : ρ}, r ∈ rows → p ∈ rows → id r = id p → r = p := fun hr hp =>
    List.inj_on_of_nodup_map hrows hr hp
  induction fuel generalizing nodes current with
  | zero =>
    have hlength := length_le_of_nodup h.sub h.nodup
    omega
  | succ fuel ih =>
    cases current with
    | none => exact ⟨h, fun r hr => hr, nofun⟩
    | some a =>
      rw [above]
      split_ifs with ha
      · -- the row was met before
        obtain ⟨q, hq, rfl⟩ := List.mem_map.1 ha
        refine ⟨⟨h.sub, h.nodup, fun r hr p hp htarget => ?_⟩, fun r hr => hr, fun r hr heq => ?_⟩
        · rcases h.up r hr p hp htarget with hmem | heq
          · exact Or.inl hmem
          · exact Or.inl (hsame (h.sub q hq) hp (Option.some.inj heq) ▸ hq)
        · exact hsame (h.sub q hq) hr (Option.some.inj heq) ▸ hq
      · cases hfind : rows.find? (id · = a) with
        | none =>
          have hnone : ∀ p ∈ rows, a ≠ id p := by
            intro p hp heq
            exact List.find?_eq_none.1 hfind p hp (by simp [heq])
          refine ⟨⟨h.sub, h.nodup, fun r hr p hp htarget => ?_⟩, fun r hr => hr, fun r hr heq => ?_⟩
          · rcases h.up r hr p hp htarget with hmem | heq
            · exact Or.inl hmem
            · exact absurd (Option.some.inj heq) (hnone p hp)
          · exact absurd (Option.some.inj heq) (hnone r hr)
        | some q =>
          have hq := List.mem_of_find?_eq_some hfind
          obtain rfl : id q = a := by simpa using List.find?_some hfind
          have hclimbed : Climbed id target rows (nodes ++ [q]) (target q) := by
            refine ⟨fun r hr => ?_, ?_, fun r hr p hp htarget => ?_⟩
            · rcases List.mem_append.1 hr with hr | hr
              · exact h.sub r hr
              · exact List.mem_singleton.1 hr ▸ hq
            · rw [List.map_append, List.nodup_append]
              refine ⟨h.nodup, List.nodup_singleton _, ?_⟩
              rintro b hb c hc rfl
              exact ha (List.mem_singleton.1 hc ▸ hb)
            · rcases List.mem_append.1 hr with hr | hr
              · rcases h.up r hr p hp htarget with hmem | heq
                · exact Or.inl (List.mem_append_left _ hmem)
                · have hqp := hsame hq hp (Option.some.inj heq)
                  exact Or.inl (List.mem_append_right _ (by simp [hqp]))
              · exact Or.inr (List.mem_singleton.1 hr ▸ htarget)
          have hlength : rows.length < fuel + (nodes ++ [q]).length := by
            rw [List.length_append, List.length_singleton]
            omega
          obtain ⟨hdone, hkept, -⟩ := ih hclimbed hlength
          refine ⟨hdone, fun r hr => hkept r (List.mem_append_left _ hr), fun r hr heq => ?_⟩
          refine hkept r (List.mem_append_right _ ?_)
          rw [List.mem_singleton]
          exact hsame hr hq (Option.some.inj heq).symm

/-- Descending ends with all rows under those of the frontier. -/
theorem closed_below (hrows : (rows.map id).Nodup) {frontier : List α} (h : Climbed id target rows nodes none)
    (hfrontier : ∀ a ∈ frontier, a ∈ nodes.map id)
    (hdown : ∀ r ∈ nodes, id r ∉ frontier → ∀ c ∈ rows, target c = some (id r) → c ∈ nodes)
    (hfuel : rows.length < fuel + nodes.length) :
    Closed id target rows (below id target rows fuel nodes frontier) ∧
      ∀ r ∈ nodes, r ∈ below id target rows fuel nodes frontier := by
  have hsame : ∀ {r p : ρ}, r ∈ rows → p ∈ rows → id r = id p → r = p := fun hr hp =>
    List.inj_on_of_nodup_map hrows hr hp
  induction fuel generalizing nodes frontier with
  | zero =>
    have hlength := length_le_of_nodup h.sub h.nodup
    omega
  | succ fuel ih =>
    rw [below]
    have hfresh : ∀ r, r ∈ rows.filter (fun r => (∃ a ∈ target r, a ∈ frontier) ∧ id r ∉ nodes.map id) ↔
        r ∈ rows ∧ (∃ a ∈ target r, a ∈ frontier) ∧ id r ∉ nodes.map id := by
      intro r
      rw [List.mem_filter, decide_eq_true_iff]
    have hnodup : ((rows.filter fun r => (∃ a ∈ target r, a ∈ frontier) ∧ id r ∉ nodes.map id).map id).Nodup :=
      hrows.sublist (List.filter_sublist.map _)
    generalize rows.filter (fun r => (∃ a ∈ target r, a ∈ frontier) ∧ id r ∉ nodes.map id) = fresh at hfresh hnodup ⊢
    have hsub : ∀ r ∈ nodes ++ fresh, r ∈ rows := by
      intro r hr
      rcases List.mem_append.1 hr with hr | hr
      · exact h.sub r hr
      · exact ((hfresh r).1 hr).1
    have hknown : ∀ {p : ρ}, p ∈ rows → id p ∈ nodes.map id → p ∈ nodes := by
      intro p hp hmem
      obtain ⟨q, hq, heq⟩ := List.mem_map.1 hmem
      exact hsame (h.sub q hq) hp heq ▸ hq
    split_ifs with hempty
    · obtain rfl := List.isEmpty_iff.1 hempty
      refine ⟨⟨h.sub, fun r hr p hp htarget => ?_, fun r hr c hc htarget => ?_⟩, fun r hr => hr⟩
      · rcases h.up r hr p hp htarget with hmem | heq
        · exact hmem
        · cases heq
      · by_cases hin : id r ∈ frontier
        · by_contra hcn
          have hin : c ∈ ([] : List ρ) := (hfresh c).2 ⟨hc, ⟨id r, htarget, hin⟩, fun hmem => hcn (hknown hc hmem)⟩
          cases hin
        · exact hdown r hr hin c hc htarget
    · have hclimbed : Climbed id target rows (nodes ++ fresh) none := by
        refine ⟨hsub, ?_, fun r hr p hp htarget => Or.inl ?_⟩
        · rw [List.map_append, List.nodup_append]
          refine ⟨h.nodup, hnodup, ?_⟩
          rintro b hb c hc rfl
          obtain ⟨r, hr, rfl⟩ := List.mem_map.1 hc
          exact ((hfresh r).1 hr).2.2 hb
        · rcases List.mem_append.1 hr with hr | hr
          · rcases h.up r hr p hp htarget with hmem | heq
            · exact List.mem_append_left _ hmem
            · cases heq
          · obtain ⟨-, ⟨a, ha, hin⟩, -⟩ := (hfresh r).1 hr
            obtain rfl := Option.some.inj (ha.symm.trans htarget)
            exact List.mem_append_left _ (hknown hp (hfrontier _ hin))
      have hdown' : ∀ r ∈ nodes ++ fresh, id r ∉ fresh.map id → ∀ c ∈ rows, target c = some (id r) → c ∈ nodes ++ fresh := by
        intro r hr hnot c hc htarget
        rcases List.mem_append.1 hr with hr | hr
        · by_cases hin : id r ∈ frontier
          · by_cases hmem : id c ∈ nodes.map id
            · exact List.mem_append_left _ (hknown hc hmem)
            · exact List.mem_append_right _ ((hfresh c).2 ⟨hc, ⟨id r, htarget, hin⟩, hmem⟩)
          · exact List.mem_append_left _ (hdown r hr hin c hc htarget)
        · exact absurd (List.mem_map_of_mem hr) hnot
      have hlength : rows.length < fuel + (nodes ++ fresh).length := by
        have hpos : 0 < fresh.length := List.length_pos_iff.2 fun hnil => hempty (by rw [hnil]; rfl)
        rw [List.length_append]
        omega
      have hfrontier' : ∀ a ∈ fresh.map id, a ∈ (nodes ++ fresh).map id := by
        intro a ha
        rw [List.map_append]
        exact List.mem_append_right _ ha
      obtain ⟨hclosed, hkept⟩ := ih hclimbed hfrontier' hdown' hlength
      exact ⟨hclosed, fun r hr => hkept r (List.mem_append_left _ hr)⟩

/-- **A chain is closed**, and has the row it is of. -/
theorem closed_chain (hrows : (rows.map id).Nodup) (a : α) :
    Closed id target rows (chain id target rows a) ∧ ∀ r ∈ rows, id r = a → r ∈ chain id target rows a := by
  have hstart : Climbed id target rows [] (some a) := ⟨by simp, List.nodup_nil, by simp⟩
  have hfuel : ∀ up : List ρ, rows.length < rows.length + 1 + up.length := fun up => by omega
  obtain ⟨hclimbed, -, hmem⟩ := climbed_above hrows hstart (hfuel [])
  have hall : ∀ r ∈ above id target rows (rows.length + 1) [] (some a), id r ∉
      (above id target rows (rows.length + 1) [] (some a)).map id → ∀ c ∈ rows, target c = some (id r) →
        c ∈ above id target rows (rows.length + 1) [] (some a) :=
    fun r hr hnot => absurd (List.mem_map_of_mem hr) hnot
  obtain ⟨hclosed, hkept⟩ := closed_below hrows hclimbed (fun b hb => hb) hall (hfuel _)
  exact ⟨hclosed, fun r hr heq => hkept r (hmem r hr (by rw [heq]))⟩

end

/-! ## Reading a chain -/

section
variable {id target} {live live' : ρ → Bool} {rows rows' nodes : List ρ} {r : ρ} {a : α} {n : ℕ}

/-- Which undoings of a chain's rows stand can be read off the chain. -/
theorem mem_standing_of_closed (h : Closed id target rows nodes) (ha : ∃ s ∈ nodes, id s = a) :
    r ∈ standing id target live n nodes a ↔ r ∈ standing id target live n rows a := by
  induction n generalizing a r with
  | zero => exact Iff.rfl
  | succ n ih =>
    obtain ⟨s, hs, rfl⟩ := ha
    have hunder : ∀ r ∈ nodes, (standing id target live n nodes (id r) = [] ↔ standing id target live n rows (id r) = []) := by
      intro r hr
      rw [List.eq_nil_iff_forall_not_mem, List.eq_nil_iff_forall_not_mem]
      exact forall_congr' fun t => not_congr (ih ⟨r, hr, rfl⟩)
    rw [mem_standing_succ, mem_standing_succ]
    constructor
    · rintro ⟨hr, htarget, hlive, hstands⟩
      exact ⟨h.sub r hr, htarget, hlive, (hunder r hr).1 hstands⟩
    · rintro ⟨hr, htarget, hlive, hstands⟩
      have hnode := h.down s hs r hr htarget
      exact ⟨hnode, htarget, hlive, (hunder r hnode).2 hstands⟩

/-- **A change of a chain's rows leaves the undoings of the rows outside it as they are.** -/
theorem mem_standing_congr (outside : α → Prop) (hsame : ∀ r, outside (id r) → (r ∈ rows ↔ r ∈ rows'))
    (hdown : ∀ r, r ∈ rows ∨ r ∈ rows' → ∀ a, target r = some a → outside a → outside (id r)) (ha : outside a) :
    r ∈ standing id target live n rows a ↔ r ∈ standing id target live n rows' a := by
  induction n generalizing a r with
  | zero => exact Iff.rfl
  | succ n ih =>
    have hunder : ∀ r, outside (id r) → (standing id target live n rows (id r) = [] ↔ standing id target live n rows' (id r) = []) := by
      intro r hr
      rw [List.eq_nil_iff_forall_not_mem, List.eq_nil_iff_forall_not_mem]
      exact forall_congr' fun t => not_congr (ih hr)
    rw [mem_standing_succ, mem_standing_succ]
    constructor
    · rintro ⟨hr, htarget, hlive, hstands⟩
      have hout := hdown r (Or.inl hr) a htarget ha
      exact ⟨(hsame r hout).1 hr, htarget, hlive, (hunder r hout).1 hstands⟩
    · rintro ⟨hr, htarget, hlive, hstands⟩
      have hout := hdown r (Or.inr hr) a htarget ha
      exact ⟨(hsame r hout).2 hr, htarget, hlive, (hunder r hout).2 hstands⟩

end

/-! ## At most one undoing that stands -/

/-- No row is undone twice: no two undoings of it stand, and none does where the row is
    itself gone. -/
def Once (id : ρ → α) (target : ρ → Option α) (live gone : ρ → Bool) (rows : List ρ) : Prop :=
  ∀ p ∈ rows, (∀ r ∈ standingAfter id target live rows (id p), ∀ s ∈ standingAfter id target live rows (id p), r = s) ∧
    (gone p → standingAfter id target live rows (id p) = [])

/-- A chain judged as it stands: each of its rows is undone once at most. -/
def Judged (id : ρ → α) (target : ρ → Option α) (live gone : ρ → Bool) (n : ℕ) (nodes : List ρ) : Prop :=
  ∀ p ∈ nodes, (standing id target live n nodes (id p)).length + (if gone p then 1 else 0) ≤ 1

section
variable {id target} {live gone : ρ → Bool} {rows rows' nodes : List ρ} {n : ℕ}

section
variable {f : ρ → ρ} (hid : ∀ r, id (f r) = id r) (htarget : ∀ r ∈ nodes, target (f r) = target r)
include hid htarget

theorem standing_map (hlive : ∀ r ∈ nodes, live (f r) = live r) {a : α} :
    standing id target live n (nodes.map f) a = (standing id target live n nodes a).map f := by
  induction n generalizing a with
  | zero => rfl
  | succ n ih =>
    rw [standing, standing, List.filter_map]
    refine congrArg (List.map f) (List.filter_congr fun r hr => ?_)
    simp only [Function.comp_apply, htarget r hr, hlive r hr, hid, ih, List.isEmpty_map]

/-- Rows judged alike are judged once. -/
theorem judged_map (hlive : ∀ r ∈ nodes, live (f r) = live r) (hgone : ∀ r ∈ nodes, gone (f r) = gone r)
    (h : Judged id target live gone n nodes) : Judged id target live gone n (nodes.map f) := by
  intro p hp
  obtain ⟨q, hq, rfl⟩ := List.mem_map.1 hp
  rw [standing_map hid htarget hlive, List.length_map, hid, hgone q hq]
  exact h q hq

end

omit [DecidableEq α] in
theorem closed_map {f : ρ → ρ} (hid : ∀ r, id (f r) = id r) (htarget : ∀ r, target (f r) = target r)
    (h : Closed id target rows nodes) : Closed id target (rows.map f) (nodes.map f) := by
  refine ⟨fun r hr => ?_, fun r hr p hp ht => ?_, fun r hr c hc ht => ?_⟩
  · obtain ⟨q, hq, rfl⟩ := List.mem_map.1 hr
    exact List.mem_map_of_mem (h.sub q hq)
  · obtain ⟨q, hq, rfl⟩ := List.mem_map.1 hr
    obtain ⟨o, ho, rfl⟩ := List.mem_map.1 hp
    rw [htarget, hid] at ht
    exact List.mem_map_of_mem (h.up q hq o ho ht)
  · obtain ⟨q, hq, rfl⟩ := List.mem_map.1 hr
    obtain ⟨o, ho, rfl⟩ := List.mem_map.1 hc
    rw [htarget, hid] at ht
    exact List.mem_map_of_mem (h.down q hq o ho ht)

omit [DecidableEq α] in
/-- A closed set of rows and a new row that undoes one of them. -/
theorem closed_append {x : ρ} (h : Closed id target rows nodes) (hfounded : Founded id target [] (rows ++ [x]))
    (hx : ∀ p ∈ rows, target x = some (id p) → p ∈ nodes) : Closed id target (rows ++ [x]) (nodes ++ [x]) := by
  have hnone : ∀ s ∈ rows ++ [x], target s ≠ some (id x) := by
    have h' : Founded id target [] (rows ++ x :: []) := hfounded
    exact h'.target_ne
  refine ⟨fun r hr => ?_, fun r hr p hp ht => ?_, fun r hr c hc ht => ?_⟩
  · rcases List.mem_append.1 hr with hr | hr
    · exact List.mem_append_left _ (h.sub r hr)
    · exact List.mem_append_right _ hr
  · rcases List.mem_append.1 hp with hold | hnew
    · rcases List.mem_append.1 hr with hr | hr
      · exact List.mem_append_left _ (h.up r hr p hold ht)
      · rw [List.mem_singleton.1 hr] at ht
        exact List.mem_append_left _ (hx p hold ht)
    · exact List.mem_append_right _ hnew
  · rcases List.mem_append.1 hc with hold | hnew
    · rcases List.mem_append.1 hr with hr | hr
      · exact List.mem_append_left _ (h.down r hr c hold ht)
      · rw [List.mem_singleton.1 hr] at ht
        exact absurd ht (hnone c hc)
    · exact List.mem_append_right _ hnew

/-- **Judging the chain of what changed is enough**: where no row was undone twice before,
    none is after. -/
theorem once_of_judged (hfounded : Founded id target [] rows) (hfounded' : Founded id target [] rows')
    (hn : rows.length < n) (hn' : rows'.length < n) (hclosed : Closed id target rows' nodes)
    (hjudged : Judged id target live gone n nodes) (hout : ∀ r, id r ∉ nodes.map id → (r ∈ rows ↔ r ∈ rows'))
    (hkept : ∀ r ∈ rows, ∃ s ∈ rows', id s = id r ∧ target s = target r) (honce : Once id target live gone rows) :
    Once id target live gone rows' := by
  intro p hp
  by_cases hnode : id p ∈ nodes.map id
  · -- the row was judged
    obtain ⟨q, hq, heq⟩ := List.mem_map.1 hnode
    obtain rfl := List.inj_on_of_nodup_map hfounded'.nodup (hclosed.sub q hq) hp heq
    have hread : ∀ r, r ∈ standingAfter id target live rows' (id q) ↔ r ∈ standing id target live n nodes (id q) :=
      fun r => ((mem_standing_of_closed hclosed ⟨q, hq, rfl⟩).trans (mem_standing_iff hfounded' hn')).symm
    have hlength := hjudged q hq
    refine ⟨fun r hr s hs => ?_, fun hgone => ?_⟩
    · rw [hread] at hr hs
      have hle : (standing id target live n nodes (id q)).length ≤ 1 := by omega
      obtain ⟨i, hi, rfl⟩ := List.getElem_of_mem hr
      obtain ⟨j, hj, rfl⟩ := List.getElem_of_mem hs
      have hij : i = j := by omega
      subst hij
      rfl
    · rw [if_pos hgone] at hlength
      have hnil : standing id target live n nodes (id q) = [] := List.length_eq_zero_iff.1 (by omega)
      rw [List.eq_nil_iff_forall_not_mem]
      intro r hr
      rw [hread, hnil] at hr
      cases hr
  · -- the row's chain is as it was
    have hdown : ∀ r, r ∈ rows ∨ r ∈ rows' → ∀ a, target r = some a → a ∉ nodes.map id → id r ∉ nodes.map id := by
      intro r hr a ha hnot hmem
      obtain ⟨s, hs, hid, htarget⟩ : ∃ s ∈ rows', id s = id r ∧ target s = target r := by
        rcases hr with hr | hr
        · exact hkept r hr
        · exact ⟨r, hr, rfl, rfl⟩
      obtain ⟨q, hq, heq⟩ := List.mem_map.1 hmem
      obtain rfl := List.inj_on_of_nodup_map hfounded'.nodup (hclosed.sub q hq) hs (heq.trans hid.symm)
      obtain ⟨o, ho, rfl⟩ := hfounded'.exists_target hs (htarget.trans ha)
      exact hnot (List.mem_map_of_mem (hclosed.up q hq o ho (htarget.trans ha)))
    have hread : ∀ r, r ∈ standingAfter id target live rows' (id p) ↔ r ∈ standingAfter id target live rows (id p) := by
      intro r
      rw [← mem_standing_iff hfounded' hn', ← mem_standing_iff hfounded hn]
      exact (mem_standing_congr (· ∉ nodes.map id) hout hdown hnode).symm
    obtain ⟨hsame, hgone⟩ := honce p ((hout p hnode).2 hp)
    refine ⟨fun r hr s hs => hsame r ((hread r).1 hr) s ((hread s).1 hs), fun hp => ?_⟩
    rw [List.eq_nil_iff_forall_not_mem]
    intro r hr
    have hr' := (hread r).1 hr
    rw [hgone hp] at hr'
    cases hr'

end

end Chains
