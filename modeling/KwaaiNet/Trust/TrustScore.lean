import Mathlib
import KwaaiNet.Trust.Verify

/-! # Trust scores

The score of a node is a weighted sum over the credentials it holds about itself, each weight
multiplied by a decay factor. The sum asks only whether a credential names the node, is not
expired and has a recognised type: not whether it verifies, nor whether another credential of
its type was counted before. `KwaaiNet.uninflatable_iff` says on which lists that makes no
difference.
-/

namespace KwaaiNet

open Foundation List

namespace VerifiableCredential

def scores (now : DateTime) (vc : VerifiableCredential) : Bool :=
  !vc.isExpired now && vc.kwaaiType.isSome

def scoresAs (now : DateTime) (type : KwaaiCredentialType) (vc : VerifiableCredential) : Bool :=
  !vc.isExpired now && decide (vc.kwaaiType = some type)

theorem scoresAs_iff {now : DateTime} {type : KwaaiCredentialType} {vc : VerifiableCredential} :
    vc.scoresAs now type = true ↔ vc.scores now = true ∧ vc.kwaaiType = some type := by
  unfold scoresAs scores
  rw [Bool.and_eq_true, Bool.and_eq_true, decide_eq_true_iff]
  constructor
  · rintro ⟨live, ofType⟩
    exact ⟨⟨live, by rw [ofType]; rfl⟩, ofType⟩
  · rintro ⟨⟨live, _⟩, ofType⟩
    exact ⟨live, ofType⟩

end VerifiableCredential

section

variable {K : Type} [Field K]

/-- `trust_weight`. -/
def KwaaiCredentialType.trustWeight : KwaaiCredentialType → K
  | .fiduciaryPledgeVC => 3 / 10
  | .verifiedNodeVC => 2 / 10
  | .uptimeVC => 2 / 10
  | .throughputVC => 15 / 100
  | .summitAttendeeVC => 1 / 10
  | .peerEndorsementVC => 5 / 100
  | .bindingVC => 0

instance : Fintype KwaaiCredentialType where
  elems := {.summitAttendeeVC, .fiduciaryPledgeVC, .verifiedNodeVC, .uptimeVC, .throughputVC,
    .peerEndorsementVC, .bindingVC}
  complete type := by cases type <;> decide

/-- `TrustScore`. -/
structure TrustScore (K : Type) where
  score : K
  credentialContribution : K
  peerEndorsementContribution : K
  credentialCount : Nat

variable (decay : DateTime → K) (now : DateTime)

/-- One turn of the scoring loop, on the sum and the count so far. -/
def tallyStep (tally : K × Nat) (vc : VerifiableCredential) : K × Nat :=
  if vc.isExpired now then tally
  else
    match vc.kwaaiType with
    | none => tally
    | some type => (tally.1 + type.trustWeight * decay vc.issuanceDate, tally.2 + 1)

/-- The scoring loop. -/
def tally (vcs : List VerifiableCredential) : K × Nat := vcs.foldl (tallyStep decay now) (0, 0)

/-- `TrustScore::from_credentials`. -/
def TrustScore.fromCredentials [LinearOrder K] (vcs : List VerifiableCredential) :
    TrustScore K :=
  let (credentialScore, count) := tally decay now vcs
  let capped := min credentialScore 1
  ⟨capped, capped, 0, count⟩

/-- `tier_label`. -/
def TrustScore.tierLabel [LinearOrder K] (trust : TrustScore K) : String :=
  if 7 / 10 ≤ trust.score then "Trusted"
  else if 4 / 10 ≤ trust.score then "Verified"
  else if 1 / 10 ≤ trust.score then "Known"
  else "Unknown"

/-- `load_for_subject`, of the credentials in the store. -/
def loadForSubject (subjectDid : String) (store : List VerifiableCredential) :
    List VerifiableCredential :=
  store.filter fun vc => vc.subject.id = subjectDid

/-- `load_valid_for_subject`. -/
def loadValidForSubject (subjectDid : String) (store : List VerifiableCredential) :
    List VerifiableCredential :=
  (loadForSubject subjectDid store).filter fun vc => !vc.isExpired now

/-- The score that `show_identity` computes for a node. -/
def shownScore [LinearOrder K] (did : String) (store : List VerifiableCredential) :
    TrustScore K :=
  TrustScore.fromCredentials decay now (loadValidForSubject now did store)

def contribution (vc : VerifiableCredential) : K :=
  match vc.kwaaiType with
  | none => 0
  | some type => type.trustWeight * decay vc.issuanceDate

def typeContribution (type : KwaaiCredentialType) (vcs : List VerifiableCredential) : K :=
  ((vcs.filter (VerifiableCredential.scoresAs now type)).map (contribution decay)).sum

end

/-! ## The sum -/

def countedAs (now : DateTime) (did : String) (type : KwaaiCredentialType)
    (store : List VerifiableCredential) : List VerifiableCredential :=
  store.filter fun vc => decide (vc.subject.id = did) && vc.scoresAs now type

def counted (now : DateTime) (did : String) (store : List VerifiableCredential) :
    List VerifiableCredential :=
  store.filter fun vc => decide (vc.subject.id = did) && vc.scores now

section

variable {K : Type} [Field K] (decay : DateTime → K) (now : DateTime)

theorem tallyStep_eq (sum : K) (count : Nat) (vc : VerifiableCredential) :
    tallyStep decay now (sum, count) vc =
      if vc.scores now then (sum + contribution decay vc, count + 1)
      else (sum, count) := by
  unfold tallyStep contribution VerifiableCredential.scores
  cases vc.isExpired now with
  | true => rfl
  | false => cases vc.kwaaiType <;> rfl

theorem foldl_tallyStep (vcs : List VerifiableCredential) (sum : K) (count : Nat) :
    vcs.foldl (tallyStep decay now) (sum, count) =
      let kept := vcs.filter (VerifiableCredential.scores now)
      (sum + (kept.map (contribution decay)).sum, count + kept.length) := by
  induction vcs generalizing sum count with
  | nil => simp
  | cons vc vcs ih =>
    rw [foldl_cons, tallyStep_eq]
    by_cases counts : vc.scores now = true
    · rw [if_pos counts, ih, filter_cons_of_pos counts]
      simp only [map_cons, sum_cons, length_cons, Prod.mk.injEq]
      exact ⟨by ring, by omega⟩
    · rw [if_neg counts, ih, filter_cons_of_neg counts]

theorem tally_loadValidForSubject (did : String) (store : List VerifiableCredential) :
    tally decay now (loadValidForSubject now did store) =
      (((counted now did store).map (contribution decay)).sum, (counted now did store).length) := by
  have kept : (loadValidForSubject now did store).filter (VerifiableCredential.scores now) =
      counted now did store := by
    rw [loadValidForSubject, loadForSubject, filter_filter, filter_filter, counted]
    congr 1
    funext vc
    unfold VerifiableCredential.scores
    cases vc.isExpired now <;> cases vc.kwaaiType.isSome <;> simp
  rw [tally, foldl_tallyStep]
  simp only [kept, zero_add]

theorem shownScore_eq [LinearOrder K] (did : String) (store : List VerifiableCredential) :
    shownScore decay now did store =
      let sum := ((counted now did store).map (contribution decay)).sum
      ⟨min sum 1, min sum 1, 0, (counted now did store).length⟩ := by
  rw [shownScore, TrustScore.fromCredentials, tally_loadValidForSubject]

theorem typeContribution_loadValidForSubject (did : String) (type : KwaaiCredentialType)
    (store : List VerifiableCredential) :
    typeContribution decay now type (loadValidForSubject now did store) =
      ((countedAs now did type store).map fun vc =>
        type.trustWeight * decay vc.issuanceDate).sum := by
  have kept : (loadValidForSubject now did store).filter (VerifiableCredential.scoresAs now type) =
      countedAs now did type store := by
    rw [loadValidForSubject, loadForSubject, filter_filter, filter_filter, countedAs]
    congr 1
    funext vc
    unfold VerifiableCredential.scoresAs
    cases vc.isExpired now <;> cases decide (vc.kwaaiType = some type) <;> simp
  rw [typeContribution, kept]
  congr 1
  apply map_congr_left
  intro vc member
  have ofType : vc.kwaaiType = some type := by
    rw [countedAs, mem_filter, Bool.and_eq_true] at member
    exact (VerifiableCredential.scoresAs_iff.mp member.2.2).2
  rw [contribution, ofType]

end

/-! ## Inflation -/

/-- A decay factor: any function of the date with values between 0 and 1. -/
abbrev Decay := { decay : DateTime → ℝ // ∀ date, 0 ≤ decay date ∧ decay date ≤ 1 }

noncomputable def steady : Decay := ⟨fun _ => 1, fun _ => ⟨zero_le_one, le_refl 1⟩⟩

/-- Added credentials that do not verify leave the shown score as it was, and no type
contributes more than its weight. -/
structure Uninflatable (ed : Ed25519) (chrono : Chrono) (now : DateTime) (did : String)
    (held added : List VerifiableCredential) : Prop where
  unchanged : (∀ vc ∈ added, (verify ed chrono now vc).isValid = false) →
    ∀ decay : Decay, shownScore decay.1 now did (held ++ added) = shownScore decay.1 now did held
  bounded : ∀ (decay : Decay) (type : KwaaiCredentialType),
    typeContribution decay.1 now type (loadValidForSubject now did held) ≤ type.trustWeight

theorem trustWeight_nonneg (type : KwaaiCredentialType) : (0 : ℝ) ≤ type.trustWeight := by
  cases type <;> norm_num [KwaaiCredentialType.trustWeight]

theorem trustWeight_pos {type : KwaaiCredentialType} (other : type ≠ .bindingVC) :
    (0 : ℝ) < type.trustWeight := by
  cases type with
  | bindingVC => exact absurd rfl other
  | _ => norm_num [KwaaiCredentialType.trustWeight]

theorem shownScore_append_of_counted_eq_nil (decay : Decay) {now : DateTime} {did : String}
    (held : List VerifiableCredential) {added : List VerifiableCredential}
    (uncounted : counted now did added = []) :
    shownScore decay.1 now did (held ++ added) = shownScore decay.1 now did held := by
  have same : counted now did (held ++ added) = counted now did held := by
    rw [counted, filter_append, ← counted, ← counted, uncounted, append_nil]
  rw [shownScore_eq, shownScore_eq, same]

theorem counted_eq_nil_of_shownScore (decay : Decay) {now : DateTime} {did : String}
    {held added : List VerifiableCredential}
    (same : shownScore decay.1 now did (held ++ added) = shownScore decay.1 now did held) :
    counted now did added = [] := by
  rw [shownScore_eq, shownScore_eq] at same
  have counts := congrArg TrustScore.credentialCount same
  simp only [counted, filter_append, length_append] at counts
  rw [← length_eq_zero_iff, counted]
  omega

theorem typeContribution_le_of_length_le_one (decay : Decay) {now : DateTime} {did : String}
    {type : KwaaiCredentialType} {store : List VerifiableCredential}
    (single : (countedAs now did type store).length ≤ 1) :
    typeContribution decay.1 now type (loadValidForSubject now did store) ≤ type.trustWeight := by
  rw [typeContribution_loadValidForSubject]
  have weight := trustWeight_nonneg type
  match countedAs now did type store, single with
  | [], _ => simpa using weight
  | [vc], _ =>
    rw [map_singleton, sum_singleton]
    exact mul_le_of_le_one_right weight (decay.2 vc.issuanceDate).2

theorem length_le_one_of_typeContribution_le {now : DateTime} {did : String}
    {type : KwaaiCredentialType} (other : type ≠ .bindingVC) {store : List VerifiableCredential}
    (bounded : typeContribution (fun _ => (1 : ℝ)) now type (loadValidForSubject now did store) ≤
      type.trustWeight) :
    (countedAs now did type store).length ≤ 1 := by
  rw [typeContribution_loadValidForSubject] at bounded
  simp only [mul_one, map_const', sum_replicate, nsmul_eq_mul] at bounded
  have cast : ((countedAs now did type store).length : ℝ) ≤ 1 :=
    le_of_mul_le_mul_right (by rwa [one_mul]) (trustWeight_pos other)
  exact_mod_cast cast

/-- **The score cannot be inflated exactly if the added credentials, when none of them verifies,
do not count for the node, and the held ones that count have different types (binding
credentials, of weight 0, apart).** -/
theorem uninflatable_iff (ed : Ed25519) (chrono : Chrono) (now : DateTime) (did : String)
    (held added : List VerifiableCredential) :
    Uninflatable ed chrono now did held added ↔
      ((∀ vc ∈ added, (verify ed chrono now vc).isValid = false) → counted now did added = []) ∧
        ∀ type : KwaaiCredentialType, type ≠ .bindingVC →
          (countedAs now did type held).length ≤ 1 := by
  constructor
  · intro uninflatable
    refine ⟨?_, ?_⟩
    · intro invalid
      exact counted_eq_nil_of_shownScore steady (uninflatable.unchanged invalid steady)
    · intro type other
      exact length_le_one_of_typeContribution_le other (uninflatable.bounded steady type)
  · rintro ⟨uncounted, single⟩
    refine ⟨?_, ?_⟩
    · intro invalid decay
      exact shownScore_append_of_counted_eq_nil decay held (uncounted invalid)
    · intro decay type
      by_cases binding : type = .bindingVC
      · subst binding
        rw [typeContribution_loadValidForSubject]
        simp [KwaaiCredentialType.trustWeight]
      · exact typeContribution_le_of_length_le_one decay (single type binding)

/-- A node adds a pledge in its own favour that nobody signed. -/
def unsignedPledge : VerifiableCredential :=
  VerifiableCredential.new 0 "did:peer:issuer" (CredentialSubject.new "did:peer:node")
    ["VerifiableCredential", "FiduciaryPledgeVC"]

theorem unsignedPledge_inflates :
    ¬ Uninflatable (markingScheme .empty) sampleChrono 0 "did:peer:node" [] [unsignedPledge] := by
  intro uninflatable
  have invalid : ∀ vc ∈ [unsignedPledge],
      (verify (markingScheme .empty) sampleChrono 0 vc).isValid = false := by
    intro vc member
    rw [mem_singleton.mp member]
    rfl
  have uncounted := counted_eq_nil_of_shownScore steady (uninflatable.unchanged invalid steady)
  exact absurd (congrArg List.length uncounted) (by decide)

end KwaaiNet
