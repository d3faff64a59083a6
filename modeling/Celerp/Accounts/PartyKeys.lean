/-
  Posting keys (`celerp/services/account_roles.py`): an account, with the contact it is
  owed to where it is a consignor payable.

  * `splitPartyKey` gives back the account and the contact of a key
    (`splitPartyKey_partyKey`);
  * `lotLine` is the line that moves a lot's value on its key, and `emitParty` posts lines;
  * `mergeSurvivors` follows the merges of a contact to the one that survives it, which
    survives itself (`mergeSurvivors_idem`), and `survivingKey` is a key owed to it.
-/
import Celerp.Accounts.PostingRoles
import Celerp.Inventory.Lot
import Celerp.Lib.Pointers
import Celerp.Lib.Segments

namespace Celerp

open AccountRole Pointers Segments

/-! ## Keys -/

/-- `split_party_key`: the account and the contact of a posting key. -/
def splitPartyKey (key : String) : String × Option String :=
  match split '|' key with
  | [] => ("", none)
  | code :: contact =>
    (String.ofList code, if join '|' contact = "" then none else some (join '|' contact))

/-! ## Lines -/

/-- A journal line with the contact it names. -/
structure PartyLine extends RoleLine where
  contact : Option String
  deriving DecidableEq, Repr

namespace PartyLine

/-- The line with its amounts rounded to the books' currency. -/
def round (currency : String) (l : PartyLine) : PartyLine :=
  { l with debit := roundMoney l.debit currency, credit := roundMoney l.credit currency }

end PartyLine

/-- `_emit_auto_posted_je` of lines that name contacts. -/
def emitParty (currency : String) (lines : List PartyLine) : Option (List PartyLine) :=
  let posted := (lines.map (·.round currency)).filter (·.moves)
  if exchangeGap (posted.map (·.toLine)) = 0 then some posted else none

namespace PostingRoles
variable (roles : PostingRoles)

/-- `_origin_line` -/
def originLine (code : String) (role : AccountRole) (debit credit : ℚ) : RoleLine where
  account := code
  debit := debit
  credit := credit
  fx := none
  accountRoles := if code ∈ roles.scopeList role then some [role.value] else none

/-- The role a lot's account has served. -/
def lotRole (code : String) : AccountRole :=
  if code ∈ roles.scopeList consignorPayable then consignorPayable
  else if code ∈ roles.scopeList inventoryPurchased then inventoryPurchased
  else inventoryOpening

/-- `_lot_line` -/
def lotLine (key : String) (debit credit : ℚ) : PartyLine :=
  ⟨roles.originLine (splitPartyKey key).1 (roles.lotRole (splitPartyKey key).1) debit credit, (splitPartyKey key).2⟩

end PostingRoles

/-! ## Merges -/

/-- The contact a merge put another into. -/
def mergedInto (merges : List (String × String)) (contact : String) : Option String :=
  (merges.lookup contact).filter (· ≠ "")

/-- `merge_survivors`, as it is read: the contact that survives a contact's merges. -/
def mergeSurvivors (merges : List (String × String)) (contact : String) : String :=
  restAt (mergedInto merges) (merges.length + 1) [] contact

/-- `surviving_key` -/
def survivingKey (merges : List (String × String)) (key : String) : String :=
  partyKey (splitPartyKey key).1 ((splitPartyKey key).2.map (mergeSurvivors merges))

section
variable {merges : List (String × String)} {code contact key : String} {party : Option String}

theorem splitPartyKey_code_not_mem (key : String) : '|' ∉ (splitPartyKey key).1.toList := by
  unfold splitPartyKey
  cases h : split '|' key with
  | nil => simp
  | cons code rest =>
    have hmem : code ∈ split '|' key := by simp [h]
    simpa using not_mem_of_mem_split hmem

theorem splitPartyKey_party_ne (h : (splitPartyKey key).2 = some contact) : contact ≠ "" := by
  unfold splitPartyKey at h
  cases hsplit : split '|' key with
  | nil => simp [hsplit] at h
  | cons code rest =>
    rw [hsplit] at h
    dsimp only at h
    split_ifs at h with hempty
    obtain rfl := Option.some.inj h
    exact hempty

theorem splitPartyKey_of_not_mem (hcode : '|' ∉ code.toList) : splitPartyKey code = (code, none) := by
  simp [splitPartyKey, split_of_not_mem hcode, join]

/-- A key gives back the account and the contact it was made of. -/
theorem splitPartyKey_partyKey (hcode : '|' ∉ code.toList) (hparty : party ≠ some "") :
    splitPartyKey (partyKey code party) = (code, party) := by
  cases party with
  | none => exact splitPartyKey_of_not_mem hcode
  | some contact =>
    have hne : contact ≠ "" := fun h => hparty (by rw [h])
    have hsplit : split '|' (partyKey code (some contact)) = code.toList :: split '|' contact := by
      have heq : partyKey code (some contact) = code ++ String.singleton '|' ++ contact := by
        rw [← String.toList_inj, partyKey]
        simp
      rw [heq, split_append, split_of_not_mem hcode]
      rfl
    rw [splitPartyKey, hsplit]
    simp only [join_split, if_neg hne, String.ofList_toList]

theorem mergedInto_ne_empty (h : mergedInto merges code = some contact) : contact ≠ "" := by
  have hmem := Option.mem_filter_iff.1 (Option.mem_def.2 h)
  simpa using hmem.2

theorem mergeSurvivors_ne_empty (h : contact ≠ "") : mergeSurvivors merges contact ≠ "" := by
  have hreaches : Reaches (mergedInto merges) contact (mergeSurvivors merges contact) := reaches_restAt
  rcases Relation.ReflTransGen.cases_tail hreaches with heq | ⟨b, -, hb⟩
  · rw [heq]
    exact h
  · exact mergedInto_ne_empty hb

/-- A contact that survives a merge survives its own. -/
theorem mergeSurvivors_idem :
    mergeSurvivors merges (mergeSurvivors merges contact) = mergeSurvivors merges contact := by
  have hnodes : ∀ a, mergedInto merges a ≠ none → a ∈ merges.map Prod.fst := by
    intro a ha
    by_contra hmem
    have hnone : merges.lookup a = none := by
      refine List.lookup_eq_none_iff.2 fun e he => ?_
      rw [bne_iff_ne]
      rintro rfl
      exact hmem (List.mem_map_of_mem he)
    rw [mergedInto, hnone] at ha
    exact ha rfl
  exact restAt_restAt hnodes (by simp [unseen])

theorem splitPartyKey_survivingKey :
    splitPartyKey (survivingKey merges key) =
      ((splitPartyKey key).1, (splitPartyKey key).2.map (mergeSurvivors merges)) := by
  refine splitPartyKey_partyKey (splitPartyKey_code_not_mem key) ?_
  intro h
  obtain ⟨contact, hcontact, hempty⟩ := Option.map_eq_some_iff.1 h
  exact mergeSurvivors_ne_empty (splitPartyKey_party_ne hcontact) hempty

/-- A key owed to the contact that survives is owed to it. -/
theorem survivingKey_idem : survivingKey merges (survivingKey merges key) = survivingKey merges key := by
  conv_lhs => rw [survivingKey, splitPartyKey_survivingKey]
  rw [survivingKey]
  cases (splitPartyKey key).2 with
  | none => rfl
  | some contact => simp only [Option.map_some, mergeSurvivors_idem]

end

end Celerp
