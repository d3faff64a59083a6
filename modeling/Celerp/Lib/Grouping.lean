/-
  Lists in groups: filtering a list and sorting it commute
  (`filter_insertionSort`); what a filter closed downwards keeps of a sorted list comes
  first in it (`filter_append_filter`); the groups of a list by key, in the order the keys
  first come, hold the list (`perm_grouped`); and one group is what its key picks
  out (`filter_flatMap_key`).
-/
import Mathlib.Data.List.Dedup
import Mathlib.Data.List.Sort
import Mathlib.Data.List.Flatten

namespace Grouping

variable {α β κ : Type*}

/-! ## Lists related element by element -/

section
variable {R : α → β → Prop}

theorem forall_mem_of_forall₂ {p : α → Prop} {q : β → Prop}
    (h : ∀ a b, R a b → (p a ↔ q b)) : ∀ {l : List α} {l' : List β}, List.Forall₂ R l l' →
      ((∀ a ∈ l, p a) ↔ ∀ b ∈ l', q b)
  | [], [], .nil => by simp
  | _ :: _, _ :: _, .cons hab hl => by
    rw [List.forall_mem_cons, List.forall_mem_cons, h _ _ hab, forall_mem_of_forall₂ h hl]

theorem exists_of_mem_right : ∀ {l : List α} {l' : List β} {b : β}, List.Forall₂ R l l' → b ∈ l' →
    ∃ a ∈ l, R a b
  | [], [], _, .nil, hb => absurd hb List.not_mem_nil
  | a :: l, b' :: l', b, .cons hab hl, hb => by
    rcases List.mem_cons.1 hb with rfl | hb
    · exact ⟨a, List.mem_cons_self, hab⟩
    · obtain ⟨a', ha', hab'⟩ := exists_of_mem_right hl hb
      exact ⟨a', List.mem_cons_of_mem _ ha', hab'⟩

end

/-! ## Sorting and filtering -/

section
variable {r : α → α → Prop} [DecidableRel r] {p : α → Bool} {a : α} {l : List α}

theorem orderedInsert_of_forall (h : ∀ b ∈ l, r a b) : l.orderedInsert r a = a :: l := by
  cases l with
  | nil => rfl
  | cons b l => exact List.orderedInsert_cons_of_le r l (h b List.mem_cons_self)

theorem filter_orderedInsert_of_neg (ha : p a = false) :
    (l.orderedInsert r a).filter p = l.filter p := by
  induction l with
  | nil => simp [ha]
  | cons b l ih =>
    rw [List.orderedInsert_cons]
    split_ifs
    · rw [List.filter_cons_of_neg (by simp [ha])]
    · simp only [List.filter_cons, ih]

theorem filter_orderedInsert_of_pos (htrans : ∀ a b c, r a b → r b c → r a c) (ha : p a = true)
    (hl : l.Pairwise r) : (l.orderedInsert r a).filter p = (l.filter p).orderedInsert r a := by
  induction l with
  | nil => simp [ha]
  | cons b l ih =>
    rw [List.pairwise_cons] at hl
    rw [List.orderedInsert_cons]
    split_ifs with hab
    · rw [List.filter_cons_of_pos ha, orderedInsert_of_forall]
      intro c hc
      rcases List.mem_cons.1 (List.mem_of_mem_filter hc) with rfl | hc
      · exact hab
      · exact htrans a b c hab (hl.1 c hc)
    · by_cases hb : p b = true
      · rw [List.filter_cons_of_pos hb, List.filter_cons_of_pos hb, ih hl.2,
          List.orderedInsert_cons, if_neg hab]
      · rw [List.filter_cons_of_neg hb, List.filter_cons_of_neg hb, ih hl.2]

/-- **Filtering and sorting commute**, for a stable sort by a total order. -/
theorem filter_insertionSort (htotal : ∀ a b, r a b ∨ r b a) (htrans : ∀ a b c, r a b → r b c → r a c) :
    (l.insertionSort r).filter p = (l.filter p).insertionSort r := by
  have : Std.Total r := ⟨htotal⟩
  have : IsTrans α r := ⟨htrans⟩
  induction l with
  | nil => rfl
  | cons a l ih =>
    rw [List.insertionSort_cons]
    by_cases ha : p a = true
    · rw [filter_orderedInsert_of_pos htrans ha (List.pairwise_insertionSort r l), ih,
        List.filter_cons_of_pos ha, List.insertionSort_cons]
    · rw [filter_orderedInsert_of_neg (by simpa using ha), ih, List.filter_cons_of_neg ha]

/-- What an element does not come before stands ahead of it in a sorted list. -/
theorem mem_takeWhile_of_not_rel {x : α} (htrans : ∀ a b c, r a b → r b c → r a c)
    (hl : l.Pairwise r) (hx : x ∈ l) (h : ¬r a x) : x ∈ l.takeWhile fun b => ¬r a b := by
  induction l with
  | nil => exact absurd hx List.not_mem_nil
  | cons b l ih =>
    rw [List.pairwise_cons] at hl
    rcases List.mem_cons.1 hx with rfl | hmem
    · simp [h]
    · have hab : ¬r a b := fun hab => h (htrans a b x hab (hl.1 x hmem))
      rw [List.takeWhile_cons_of_pos (by simpa using hab)]
      exact List.mem_cons_of_mem _ (ih hl.2 hmem)

end

/-! ## Cutting a sorted list -/

section
variable {r : α → α → Prop} {p : α → Bool} {l : List α}

theorem filter_eq_nil_of_before {a : α} (hp : ∀ a b, r a b → p b = true → p a = true)
    (hl : ∀ b ∈ l, r a b) (ha : ¬p a = true) : l.filter p = [] :=
  List.filter_eq_nil_iff.2 fun b hb hpb => ha (hp a b (hl b hb) hpb)

/-- What comes first in a sorted list is what a filter keeps. -/
theorem takeWhile_eq_filter (hp : ∀ a b, r a b → p b = true → p a = true) (hl : l.Pairwise r) :
    l.takeWhile p = l.filter p := by
  induction l with
  | nil => rfl
  | cons a l ih =>
    rw [List.pairwise_cons] at hl
    by_cases ha : p a = true
    · rw [List.takeWhile_cons_of_pos ha, List.filter_cons_of_pos ha, ih hl.2]
    · rw [List.takeWhile_cons_of_neg ha, List.filter_cons_of_neg ha, filter_eq_nil_of_before hp hl.1 ha]

theorem dropWhile_eq_filter (hp : ∀ a b, r a b → p b = true → p a = true) (hl : l.Pairwise r) :
    l.dropWhile p = l.filter fun a => !p a := by
  induction l with
  | nil => rfl
  | cons a l ih =>
    rw [List.pairwise_cons] at hl
    by_cases ha : p a = true
    · rw [List.dropWhile_cons_of_pos ha, List.filter_cons_of_neg (by simpa using ha), ih hl.2]
    · rw [List.dropWhile_cons_of_neg ha, eq_comm, List.filter_eq_self]
      intro b hb
      rcases List.mem_cons.1 hb with rfl | hb
      · simpa using ha
      · simpa using fun hpb => ha (hp a b (hl.1 b hb) hpb)

/-- A sorted list is what a filter keeps and the rest after it. -/
theorem filter_append_filter (hp : ∀ a b, r a b → p b = true → p a = true) (hl : l.Pairwise r) :
    (l.filter p ++ l.filter fun a => !p a) = l := by
  rw [← takeWhile_eq_filter hp hl, ← dropWhile_eq_filter hp hl]
  exact List.takeWhile_append_dropWhile

end

/-! ## Groups by key -/

section
variable [DecidableEq κ]

/-- The keys of a list, in the order they first come. -/
def keysOf (k : α → κ) (l : List α) : List κ := (l.map k).reverse.dedup.reverse

/-- The list by key. -/
def grouped (k : α → κ) (l : List α) : List α :=
  (keysOf k l).flatMap fun key => l.filter fun a => k a = key

theorem nodup_keysOf (k : α → κ) (l : List α) : (keysOf k l).Nodup :=
  List.nodup_reverse.2 (List.nodup_dedup _)

theorem mem_keysOf {k : α → κ} {l : List α} {a : α} (h : a ∈ l) : k a ∈ keysOf k l := by
  simp only [keysOf, List.mem_reverse, List.mem_dedup]
  exact List.mem_map_of_mem h

/-- A list whose keys differ has one element of a key, or none. -/
theorem filter_key {k : α → κ} : ∀ {l : List α}, (l.map k).Nodup → ∀ b : κ,
    l.filter (fun a => k a = b) = [] ∨ ∃ a ∈ l, k a = b ∧ l.filter (fun a => k a = b) = [a]
  | [], _, _ => .inl rfl
  | a :: l, hl, b => by
    rw [List.map_cons, List.nodup_cons] at hl
    by_cases hab : k a = b
    · have hrest : l.filter (fun a => k a = b) = [] := by
        refine List.filter_eq_nil_iff.2 fun a' ha' hab' => hl.1 ?_
        rw [hab, ← of_decide_eq_true hab']
        exact List.mem_map_of_mem ha'
      refine .inr ⟨a, List.mem_cons_self, hab, ?_⟩
      rw [List.filter_cons_of_pos (by simpa using hab), hrest]
    · rw [List.filter_cons_of_neg (by simpa using hab)]
      rcases filter_key hl.2 b with h | ⟨a', ha', h⟩
      · exact .inl h
      · exact .inr ⟨a', List.mem_cons_of_mem a ha', h⟩

theorem perm_flatMap_filter (k : α → κ) : ∀ {keys : List κ} {l : List α}, keys.Nodup →
    (∀ a ∈ l, k a ∈ keys) → (keys.flatMap fun key => l.filter fun a => k a = key).Perm l
  | [], l, _, h => by
    obtain rfl : l = [] := List.eq_nil_iff_forall_not_mem.2 fun a ha => List.not_mem_nil (h a ha)
    exact .nil
  | key :: keys, l, hnodup, h => by
    rw [List.nodup_cons] at hnodup
    have hrest : ∀ key' ∈ keys, l.filter (fun a => k a = key') =
        (l.filter fun a => !decide (k a = key)).filter fun a => k a = key' := by
      intro key' hkey'
      rw [List.filter_filter]
      refine List.filter_congr fun a _ => ?_
      by_cases hk : k a = key'
      · have hne : key' ≠ key := fun heq => hnodup.1 (heq ▸ hkey')
        simp [hk, hne]
      · simp [hk]
    rw [List.flatMap_cons, List.flatMap_congr hrest]
    refine (List.Perm.append_left _ (perm_flatMap_filter k hnodup.2 ?_)).trans
      (List.filter_append_perm _ _)
    intro a ha
    have hne : k a ≠ key := by simpa using List.of_mem_filter ha
    exact (List.mem_cons.1 (h a (List.mem_of_mem_filter ha))).resolve_left hne

/-- **The groups hold the list.** -/
theorem perm_grouped (k : α → κ) (l : List α) : (grouped k l).Perm l :=
  perm_flatMap_filter k (nodup_keysOf k l) fun _ => mem_keysOf

/-- **A group is what its key picks out**, where each group keeps to its own. -/
theorem filter_flatMap_key (k : α → κ) (key : β → κ) {f : β → List α} : ∀ {l : List β} {b : β},
    (∀ b ∈ l, ∀ a ∈ f b, k a = key b) → (l.map key).Nodup → b ∈ l →
      (l.flatMap f).filter (fun a => k a = key b) = f b
  | [], _, _, _, hb => absurd hb List.not_mem_nil
  | b' :: l, b, hkey, hnodup, hb => by
    rw [List.map_cons, List.nodup_cons] at hnodup
    rw [List.forall_mem_cons] at hkey
    rw [List.flatMap_cons, List.filter_append]
    by_cases heq : key b' = key b
    · have hrest : (l.flatMap f).filter (fun a => k a = key b) = [] := by
        rw [List.filter_eq_nil_iff]
        intro a ha
        obtain ⟨c, hc, ha⟩ := List.mem_flatMap.1 ha
        have hne : key c ≠ key b := fun h => hnodup.1 (heq ▸ h ▸ List.mem_map_of_mem hc)
        simpa [hkey.2 c hc a ha] using hne
      obtain rfl : b = b' := (List.mem_cons.1 hb).resolve_right fun hmem =>
        hnodup.1 (heq ▸ List.mem_map_of_mem hmem)
      rw [hrest, List.append_nil, List.filter_eq_self]
      intro a ha
      simp [hkey.1 a ha]
    · have hmem : b ∈ l := (List.mem_cons.1 hb).resolve_left fun h => heq (h ▸ rfl)
      have hfirst : (f b').filter (fun a => k a = key b) = [] := by
        rw [List.filter_eq_nil_iff]
        intro a ha
        simpa [hkey.1 a ha] using heq
      rw [hfirst, List.nil_append, filter_flatMap_key k key hkey.2 hnodup.2 hmem]

end

end Grouping
