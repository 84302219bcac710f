import LlmRelay.Ecma.Number
import LlmRelay.Ecma.Text
import Mathlib.Data.List.Nodup

/-!
# Dashboard capabilities

The dashboard is read with a session, and a session is had for a bootstrap token that is good
for one exchange (`dashboard-auth.ts`). The manager keeps the digests of the tokens, with the
times at which they expire, and every call removes what has expired by its own reading of the
clock.

## Main definitions

* `Token`, `Candidate`: the tokens that are issued, and what callers present;
* `DashboardAuthManager`: the records, with the operations under the names of the source;
* `AuthCall`, `AuthAnswer`, `DashboardAuthManager.step`: one call.

## Main results

* `origin_step`, `bootstrap_origin_step`: where the records after a call come from;
* `refillsBoth_step`: which digests they have.
-/

namespace LlmRelay.Dashboard

open Ecma

/-! ## Tokens -/

def TOKEN_LENGTH : Nat := 43

/-- `[A-Za-z0-9_-]`. -/
def isTokenCharacter (c : CodeUnit) : Bool :=
  (0x41 ≤ c && c ≤ 0x5A) || (0x61 ≤ c && c ≤ 0x7A) || (0x30 ≤ c && c ≤ 0x39) ||
    c == 0x5F || c == 0x2D

/-- What a caller presents, where it is a string. -/
abbrev Candidate := Option Text

def validTokenShape (candidate : Candidate) : Bool :=
  candidate.any fun value => value.length == TOKEN_LENGTH && value.all isTokenCharacter

/-- A text in the shape of a token. -/
abbrev Token := { value : Text // validTokenShape (some value) = true }

def INVALID_TOKEN : Text :=
  0 :: text "invalid-dashboard-token"

theorem Token.ne_invalid (token : Token) : token.1 ≠ INVALID_TOKEN := by
  intro h
  have hshape := token.2
  rw [h] at hshape
  exact absurd hshape (by decide)

/-! ## Records -/

structure BootstrapRecord (D : Type) where
  digest : D
  expiresAt : ℚ
  deriving DecidableEq

structure SessionRecord (D : Type) where
  digest : D
  absoluteExpiresAt : ℚ
  idleExpiresAt : ℚ
  deriving DecidableEq

/-- The times to live, in milliseconds. -/
structure DashboardTtls where
  bootstrapTtlMs : Nat
  idleTtlMs : Nat
  absoluteTtlMs : Nat
  bootstrap_pos : 0 < bootstrapTtlMs
  idle_pos : 0 < idleTtlMs
  absolute_pos : 0 < absoluteTtlMs

/-- The times to live of a manager that is given none. -/
def DashboardTtls.default : DashboardTtls :=
  ⟨60000, 1800000, 28800000, by decide, by decide, by decide⟩

/-- The records of a manager, the newest first. -/
structure DashboardAuthManager (D : Type) where
  bootstraps : List (BootstrapRecord D)
  consumedBootstraps : List (BootstrapRecord D)
  sessions : List (SessionRecord D)

inductive FailureReason where
  | missing | malformed | wrong | expired | consumed
  deriving DecidableEq

/-- The code of a failure. -/
def FailureReason.code : FailureReason → String
  | .consumed => "replay"
  | _ => "invalid_auth"

/-- Why a candidate that matches no record fails. -/
def unmatchedCandidateFailure (candidate : Candidate) : FailureReason :=
  if validTokenShape candidate then .wrong else if candidate.isSome then .malformed else .missing

/-- What a call answers; `threw` is an exception of the clock or of the random source. -/
inductive AuthAnswer where
  | bootstrap (token : Token) (expiresAt : ℚ)
  | session (token : Token) (idleExpiresAt absoluteExpiresAt : ℚ)
  | valid (idleExpiresAt absoluteExpiresAt : ℚ)
  | revoked
  | done
  | failure (reason : FailureReason)
  | threw
  deriving DecidableEq

/-- A call, with what the clock says and the random source gives in it. -/
inductive AuthCall where
  | createBootstrap (clock : Number) (random : Option Token)
  | createSession (clock : Number) (random : Option Token)
  | exchangeBootstrap (candidate : Candidate) (clock : Number) (random : Option Token)
  | validateSession (candidate : Candidate) (clock : Number)
  | logout (candidate : Candidate) (clock : Number)
  | cleanup (at_ : Option Number) (clock : Number)
  deriving DecidableEq

/-- Is the time up? -/
def isUp (expiresAt : ℚ) (at_ : Number) : Bool :=
  (Number.fin expiresAt).le at_

@[simp] theorem isUp_fin (expiresAt now : ℚ) :
    isUp expiresAt (.fin now) = decide (expiresAt ≤ now) := rfl

def SessionRecord.isUp {D : Type} (record : SessionRecord D) (at_ : Number) : Bool :=
  Dashboard.isUp record.absoluteExpiresAt at_ || Dashboard.isUp record.idleExpiresAt at_

/-! ## Operations -/

namespace DashboardAuthManager

variable {D : Type} [DecidableEq D] (digest : Text → D) (ttls : DashboardTtls)

/-- A manager without records. -/
def new : DashboardAuthManager D :=
  ⟨[], [], []⟩

def digestToken (candidate : Candidate) : D :=
  digest (candidate.getD INVALID_TOKEN)

def cleanup (s : DashboardAuthManager D) (at_ : Number) : DashboardAuthManager D where
  bootstraps := s.bootstraps.filter fun record => !isUp record.expiresAt at_
  consumedBootstraps := s.consumedBootstraps.filter fun record => !isUp record.expiresAt at_
  sessions := s.sessions.filter fun record => !record.isUp at_

def findBootstrap (s : DashboardAuthManager D) (candidateDigest : D) :
    Option (BootstrapRecord D) :=
  s.bootstraps.find? fun record => candidateDigest = record.digest

def findConsumedBootstrap (s : DashboardAuthManager D) (candidateDigest : D) :
    Option (BootstrapRecord D) :=
  s.consumedBootstraps.find? fun record => candidateDigest = record.digest

def findSession (s : DashboardAuthManager D) (candidateDigest : D) : Option (SessionRecord D) :=
  s.sessions.find? fun record => candidateDigest = record.digest

/-- A session of a token. -/
def sessionOf (token : Token) (now : ℚ) : SessionRecord D where
  digest := digestToken digest (some token.1)
  absoluteExpiresAt := now + ttls.absoluteTtlMs
  idleExpiresAt := min (now + ttls.idleTtlMs) (now + ttls.absoluteTtlMs)

def issueSession (s : DashboardAuthManager D) (now : ℚ) (random : Option Token) :
    DashboardAuthManager D × AuthAnswer :=
  match random with
  | none => (s, .threw)
  | some token =>
    let record := sessionOf digest ttls token now
    ({ s with sessions := record :: s.sessions },
      .session token record.idleExpiresAt record.absoluteExpiresAt)

def createBootstrap (s : DashboardAuthManager D) (now : ℚ) (random : Option Token) :
    DashboardAuthManager D × AuthAnswer :=
  let s := s.cleanup (.fin now)
  match random with
  | none => (s, .threw)
  | some token =>
    let record := ⟨digestToken digest (some token.1), now + ttls.bootstrapTtlMs⟩
    ({ s with bootstraps := record :: s.bootstraps }, .bootstrap token record.expiresAt)

def createSession (s : DashboardAuthManager D) (now : ℚ) (random : Option Token) :
    DashboardAuthManager D × AuthAnswer :=
  (s.cleanup (.fin now)).issueSession digest ttls now random

def exchangeBootstrap (s : DashboardAuthManager D) (candidate : Candidate) (now : ℚ)
    (random : Option Token) : DashboardAuthManager D × AuthAnswer :=
  let candidateDigest := digestToken digest candidate
  match s.findBootstrap candidateDigest with
  | some active =>
    let s := { s with bootstraps := s.bootstraps.erase active }
    if isUp active.expiresAt (.fin now) then (s.cleanup (.fin now), .failure .expired)
    else
      let s := s.cleanup (.fin now)
      { s with consumedBootstraps := active :: s.consumedBootstraps }.issueSession
        digest ttls now random
  | none =>
    match s.findConsumedBootstrap candidateDigest with
    | some consumed =>
      if isUp consumed.expiresAt (.fin now) then (s.cleanup (.fin now), .failure .expired)
      else (s.cleanup (.fin now), .failure .consumed)
    | none => (s.cleanup (.fin now), .failure (unmatchedCandidateFailure candidate))

/-- The session of a candidate, or the manager after the failure to find it. -/
def resolveSession (s : DashboardAuthManager D) (candidate : Candidate) (now : ℚ) :
    Except (DashboardAuthManager D × AuthAnswer) (SessionRecord D) :=
  match s.findSession (digestToken digest candidate) with
  | none => .error (s.cleanup (.fin now), .failure (unmatchedCandidateFailure candidate))
  | some record =>
    if record.isUp (.fin now) then
      .error ({ s with sessions := s.sessions.erase record }.cleanup (.fin now), .failure .expired)
    else .ok record

/-- A session that was used. -/
def touched (record : SessionRecord D) (now : ℚ) : SessionRecord D :=
  { record with idleExpiresAt := min (now + ttls.idleTtlMs) record.absoluteExpiresAt }

def validateSession (s : DashboardAuthManager D) (candidate : Candidate) (now : ℚ) :
    DashboardAuthManager D × AuthAnswer :=
  match s.resolveSession digest candidate now with
  | .error failed => failed
  | .ok record =>
    let s := s.cleanup (.fin now)
    let record' := touched ttls record now
    ({ s with sessions := s.sessions.replace record record' },
      .valid record'.idleExpiresAt record'.absoluteExpiresAt)

def logout (s : DashboardAuthManager D) (candidate : Candidate) (now : ℚ) :
    DashboardAuthManager D × AuthAnswer :=
  match s.resolveSession digest candidate now with
  | .error failed => failed
  | .ok record =>
    let s := s.cleanup (.fin now)
    ({ s with sessions := s.sessions.erase record }, .revoked)

/-- A call that reads the clock throws where the reading is not finite. -/
def nowFrom (s : DashboardAuthManager D) (clock : Number)
    (call : ℚ → DashboardAuthManager D × AuthAnswer) : DashboardAuthManager D × AuthAnswer :=
  match clock.rat? with
  | none => (s, .threw)
  | some now => call now

/-- One call. -/
def step (s : DashboardAuthManager D) : AuthCall → DashboardAuthManager D × AuthAnswer
  | .createBootstrap clock random =>
    s.nowFrom clock fun now => s.createBootstrap digest ttls now random
  | .createSession clock random =>
    s.nowFrom clock fun now => s.createSession digest ttls now random
  | .exchangeBootstrap candidate clock random =>
    s.nowFrom clock fun now => s.exchangeBootstrap digest ttls candidate now random
  | .validateSession candidate clock =>
    s.nowFrom clock fun now => s.validateSession digest ttls candidate now
  | .logout candidate clock => s.nowFrom clock fun now => s.logout digest candidate now
  | .cleanup (some at_) _ => (s.cleanup at_, .done)
  | .cleanup none clock => s.nowFrom clock fun now => (s.cleanup (.fin now), .done)

end DashboardAuthManager

/-! ## Replaced elements -/

section Replace

variable {α : Type*} [BEq α] [LawfulBEq α] {l : List α} {a b x : α}

theorem mem_replace (hnodup : l.Nodup) (h : x ∈ l.replace a b) : x = b ∨ (x ∈ l ∧ x ≠ a) := by
  induction l with
  | nil => exact absurd h List.not_mem_nil
  | cons c l ih =>
    rw [List.nodup_cons] at hnodup
    by_cases hc : c = a
    · subst hc
      rw [List.replace_cons_self] at h
      rcases List.mem_cons.mp h with rfl | hmem
      · exact .inl rfl
      · exact .inr ⟨List.mem_cons_of_mem _ hmem, fun heq => hnodup.1 (heq ▸ hmem)⟩
    · rw [List.replace_cons, beq_false_of_ne (Ne.symm hc)] at h
      rcases List.mem_cons.mp h with rfl | hmem
      · exact .inr ⟨List.mem_cons_self, hc⟩
      · exact (ih hnodup.2 hmem).imp_right fun ⟨hmem, hne⟩ => ⟨List.mem_cons_of_mem _ hmem, hne⟩

theorem map_replace {β : Type*} {f : α → β} (h : f b = f a) : (l.replace a b).map f = l.map f := by
  induction l with
  | nil => rfl
  | cons c l ih =>
    by_cases hc : c = a
    · subst hc
      rw [List.replace_cons_self, List.map_cons, List.map_cons, h]
    · rw [List.replace_cons, beq_false_of_ne (Ne.symm hc), List.map_cons, List.map_cons, ih]

end Replace

/-! ## What a call does -/

/-- The reading of the clock by which a call removes what has expired. -/
def AuthCall.seenAt : AuthCall → Option Number
  | .createBootstrap clock _ | .createSession clock _ | .exchangeBootstrap _ clock _
  | .validateSession _ clock | .logout _ clock | .cleanup none clock =>
    clock.rat?.map Number.fin
  | .cleanup (some at_) _ => some at_

/-- The token that the random source gives in a call. -/
def AuthCall.drawn : AuthCall → Option Token
  | .createBootstrap _ random | .createSession _ random | .exchangeBootstrap _ _ random => random
  | _ => none

/-- The token that an answer states. -/
def AuthAnswer.issued : AuthAnswer → Option Token
  | .bootstrap token _ | .session token _ _ => some token
  | _ => none

/-- Is the call a use of the candidate that succeeded? -/
def uses (call : AuthCall) (answer : AuthAnswer) (candidate : Candidate) : Prop :=
  (∃ clock idle absolute, call = .validateSession candidate clock ∧ answer = .valid idle absolute) ∨
    ∃ clock, call = .logout candidate clock ∧ answer = .revoked

theorem mem_sessions_cleanup {D : Type} {s : DashboardAuthManager D} {at_ : Number}
    {record : SessionRecord D} :
    record ∈ (s.cleanup at_).sessions ↔ record ∈ s.sessions ∧ record.isUp at_ = false := by
  change record ∈ s.sessions.filter _ ↔ _
  rw [List.mem_filter, Bool.not_eq_true']

section Origins

variable {D : Type} [DecidableEq D] (digest : Text → D)

open DashboardAuthManager

/-- Where a session after a call comes from: it was issued, or used, or nothing happened to it. -/
inductive SessionOrigin (s : DashboardAuthManager D) (call : AuthCall) (answer : AuthAnswer)
    (at_ : Number) (record' : SessionRecord D) : Prop
  | issued (token : Token) :
      answer = .session token record'.idleExpiresAt record'.absoluteExpiresAt →
      call.drawn = some token → record'.digest = digestToken digest (some token.1) →
      SessionOrigin s call answer at_ record'
  | used (candidate : Candidate) (clock : Number) (record : SessionRecord D) :
      call = .validateSession candidate clock →
      answer = .valid record'.idleExpiresAt record'.absoluteExpiresAt →
      record ∈ s.sessions → record.digest = digestToken digest candidate →
      record.isUp at_ = false → record'.digest = record.digest →
      record'.absoluteExpiresAt = record.absoluteExpiresAt →
      SessionOrigin s call answer at_ record'
  | kept : record' ∈ s.sessions → record'.isUp at_ = false →
      (∀ candidate, uses call answer candidate → digestToken digest candidate ≠ record'.digest) →
      SessionOrigin s call answer at_ record'

variable {digest} {s : DashboardAuthManager D}

variable {call : AuthCall} {answer : AuthAnswer} {at_ : Number} {record' : SessionRecord D}
  {t : DashboardAuthManager D}

omit [DecidableEq D] in
theorem SessionOrigin.of_cleanup (h : record' ∈ (s.cleanup at_).sessions)
    (huses : ∀ candidate, uses call answer candidate →
      digestToken digest candidate ≠ record'.digest) :
    SessionOrigin digest s call answer at_ record' := by
  obtain ⟨hmem, hup⟩ := mem_sessions_cleanup.mp h
  exact .kept hmem hup huses

theorem findSession_eq_some {candidateDigest : D} {record : SessionRecord D}
    (h : s.findSession candidateDigest = some record) :
    record ∈ s.sessions ∧ record.digest = candidateDigest := by
  have hfound : candidateDigest = record.digest := by simpa using List.find?_some h
  exact ⟨List.mem_of_find?_eq_some h, hfound.symm⟩

theorem findBootstrap_eq_some {candidateDigest : D} {record : BootstrapRecord D}
    (h : s.findBootstrap candidateDigest = some record) :
    record ∈ s.bootstraps ∧ record.digest = candidateDigest := by
  have hfound : candidateDigest = record.digest := by simpa using List.find?_some h
  exact ⟨List.mem_of_find?_eq_some h, hfound.symm⟩

theorem resolveSession_cases (digest : Text → D) (s : DashboardAuthManager D)
    (candidate : Candidate) (now : ℚ) :
    (∃ record, s.resolveSession digest candidate now = .ok record ∧ record ∈ s.sessions ∧
        record.digest = digestToken digest candidate ∧ record.isUp (.fin now) = false) ∨
      ∃ s' reason, s.resolveSession digest candidate now = .error (s', .failure reason) ∧
        s'.bootstraps.Sublist s.bootstraps ∧
        s'.sessions.Sublist (s.cleanup (.fin now)).sessions := by
  unfold resolveSession
  cases hfind : s.findSession (digestToken digest candidate) with
  | none => exact .inr ⟨_, _, rfl, List.filter_sublist, .refl _⟩
  | some record =>
    obtain ⟨hmem, hdigest⟩ := findSession_eq_some hfind
    dsimp only
    cases hup : record.isUp (.fin now) with
    | true =>
      refine .inr ⟨{ s with sessions := s.sessions.erase record }.cleanup (.fin now), .expired,
        if_pos rfl, List.filter_sublist, ?_⟩
      exact List.erase_sublist.filter _
    | false => exact .inl ⟨record, if_neg Bool.false_ne_true, hmem, hdigest, hup⟩

variable (digest) (ttls : DashboardTtls)

omit [DecidableEq D] in
theorem issueSession_cases (s : DashboardAuthManager D) (now : ℚ) (random : Option Token) :
    s.issueSession digest ttls now random = (s, .threw) ∨
      ∃ token, random = some token ∧ s.issueSession digest ttls now random
        = ({ s with sessions := sessionOf digest ttls token now :: s.sessions },
          .session token (sessionOf digest ttls token now).idleExpiresAt
            (sessionOf digest ttls token now).absoluteExpiresAt) := by
  rcases random with _ | token
  · exact .inl rfl
  · exact .inr ⟨token, rfl, rfl⟩

theorem exchangeBootstrap_cases (s : DashboardAuthManager D) (candidate : Candidate) (now : ℚ)
    (random : Option Token) :
    (∃ active ∈ s.bootstraps, active.digest = digestToken digest candidate ∧
        now < active.expiresAt ∧ ∃ t : DashboardAuthManager D,
          t.bootstraps.Sublist (s.bootstraps.erase active) ∧
          t.sessions = (s.cleanup (.fin now)).sessions ∧
          s.exchangeBootstrap digest ttls candidate now random
            = t.issueSession digest ttls now random) ∨
      ∃ t reason, s.exchangeBootstrap digest ttls candidate now random = (t, .failure reason) ∧
        t.sessions = (s.cleanup (.fin now)).sessions ∧ t.bootstraps.Sublist s.bootstraps := by
  unfold exchangeBootstrap
  dsimp only
  cases hfind : s.findBootstrap (digestToken digest candidate) with
  | some active =>
    obtain ⟨hmem, hdigest⟩ := findBootstrap_eq_some hfind
    dsimp only
    rw [isUp_fin]
    by_cases hup : active.expiresAt ≤ now
    · rw [decide_eq_true hup]
      exact .inr ⟨_, _, rfl, rfl, List.filter_sublist.trans List.erase_sublist⟩
    · rw [decide_eq_false hup]
      refine .inl ⟨active, hmem, hdigest, not_le.mp hup, _, ?_, ?_, rfl⟩
      · exact List.filter_sublist
      · rfl
  | none =>
    refine .inr ⟨s.cleanup (.fin now), ?_⟩
    dsimp only
    split
    · split
      · exact ⟨.expired, rfl, rfl, List.filter_sublist⟩
      · exact ⟨.consumed, rfl, rfl, List.filter_sublist⟩
    · exact ⟨_, rfl, rfl, List.filter_sublist⟩

variable {digest ttls}

theorem not_uses (hrevoked : answer ≠ .revoked)
    (hvalid : ∀ idle absolute, answer ≠ .valid idle absolute) (candidate : Candidate) :
    ¬ uses call answer candidate := by
  rintro (⟨_, _, _, _, h⟩ | ⟨_, _, h⟩)
  · exact hvalid _ _ h
  · exact hrevoked h

theorem exists_fin_of_seenAt {clock : Number} (h : clock.rat?.map Number.fin = some at_) :
    ∃ now, clock = .fin now ∧ at_ = .fin now := by
  cases clock with
  | fin now => exact ⟨now, rfl, (Option.some.inj h).symm⟩
  | nan => cases h
  | negInf => cases h
  | posInf => cases h

omit [DecidableEq D] in
theorem SessionOrigin.of_sublist (ht : t.sessions.Sublist (s.cleanup at_).sessions)
    (h : record' ∈ t.sessions) (hrevoked : answer ≠ .revoked)
    (hvalid : ∀ idle absolute, answer ≠ .valid idle absolute) :
    SessionOrigin digest s call answer at_ record' :=
  .of_cleanup (ht.subset h) fun candidate hused =>
    absurd hused (not_uses hrevoked hvalid candidate)

omit [DecidableEq D] in
theorem SessionOrigin.of_issueSession {now : ℚ} {random : Option Token}
    (hdrawn : call.drawn = random) (ht : t.sessions = (s.cleanup (.fin now)).sessions)
    (h : record' ∈ (t.issueSession digest ttls now random).1.sessions) :
    SessionOrigin digest s call (t.issueSession digest ttls now random).2 (.fin now) record' := by
  rcases issueSession_cases digest ttls t now random with hthrew | ⟨token, hrandom, hissue⟩
  · rw [hthrew] at h ⊢
    exact .of_sublist (ht ▸ .refl _) h nofun nofun
  · rw [hissue] at h ⊢
    rcases List.mem_cons.mp h with rfl | hold
    · exact .issued token rfl (hdrawn.trans hrandom) rfl
    · exact .of_sublist (ht ▸ .refl _) hold nofun nofun

/-- **Where the sessions after a call come from.** -/
theorem origin_step (hdistinct : (s.sessions.map SessionRecord.digest).Nodup)
    (hseen : call.seenAt = some at_) (h : record' ∈ (s.step digest ttls call).1.sessions) :
    SessionOrigin digest s call (s.step digest ttls call).2 at_ record' := by
  cases call with
  | createBootstrap clock random =>
    obtain ⟨now, rfl, rfl⟩ := exists_fin_of_seenAt hseen
    rcases random with _ | token
    · exact .of_sublist (.refl _) h nofun nofun
    · exact .of_sublist (.refl _) h nofun nofun
  | createSession clock random =>
    obtain ⟨now, rfl, rfl⟩ := exists_fin_of_seenAt hseen
    exact .of_issueSession rfl rfl h
  | exchangeBootstrap candidate clock random =>
    obtain ⟨now, rfl, rfl⟩ := exists_fin_of_seenAt hseen
    change record' ∈ (s.exchangeBootstrap digest ttls candidate now random).1.sessions at h
    change SessionOrigin digest s _ (s.exchangeBootstrap digest ttls candidate now random).2 _ _
    rcases exchangeBootstrap_cases digest ttls s candidate now random with
      ⟨active, -, -, -, t, -, ht, heq⟩ | ⟨t, reason, heq, ht, -⟩
    · rw [heq] at h ⊢
      exact .of_issueSession rfl ht h
    · rw [heq] at h ⊢
      exact .of_sublist (ht ▸ .refl _) h nofun nofun
  | validateSession candidate clock =>
    obtain ⟨now, rfl, rfl⟩ := exists_fin_of_seenAt hseen
    change record' ∈ (s.validateSession digest ttls candidate now).1.sessions at h
    change SessionOrigin digest s _ (s.validateSession digest ttls candidate now).2 _ _
    unfold validateSession at h ⊢
    rcases resolveSession_cases digest s candidate now with
      ⟨record, hfound, hmem, hdigest, hup⟩ | ⟨t, reason, hfailed, -, ht⟩
    · rw [hfound] at h ⊢
      have hclean : ((s.cleanup (.fin now)).sessions).Nodup :=
        hdistinct.of_map.filter _
      rcases mem_replace hclean h with rfl | ⟨hkept, hne⟩
      · exact .used candidate _ record rfl rfl hmem hdigest hup rfl rfl
      · refine .of_cleanup hkept ?_
        rintro candidate' (⟨_, _, _, hcall, -⟩ | ⟨_, hcall, -⟩) heq
        · -- no other session has the digest of the one that was used
          cases hcall
          refine hne (List.inj_on_of_nodup_map hdistinct (mem_sessions_cleanup.mp hkept).1 hmem ?_)
          rw [← heq, hdigest]
        · cases hcall
    · rw [hfailed] at h ⊢
      exact .of_sublist ht h nofun nofun
  | logout candidate clock =>
    obtain ⟨now, rfl, rfl⟩ := exists_fin_of_seenAt hseen
    change record' ∈ (s.logout digest candidate now).1.sessions at h
    change SessionOrigin digest s _ (s.logout digest candidate now).2 _ _
    unfold logout at h ⊢
    rcases resolveSession_cases digest s candidate now with
      ⟨record, hfound, hmem, hdigest, hup⟩ | ⟨t, reason, hfailed, -, ht⟩
    · rw [hfound] at h ⊢
      have hclean : ((s.cleanup (.fin now)).sessions).Nodup :=
        hdistinct.of_map.filter _
      obtain ⟨hne, hkept⟩ := hclean.mem_erase_iff.mp h
      refine .of_cleanup hkept ?_
      rintro candidate' (⟨_, _, _, hcall, -⟩ | ⟨_, hcall, -⟩) heq
      · cases hcall
      · cases hcall
        refine hne (List.inj_on_of_nodup_map hdistinct (mem_sessions_cleanup.mp hkept).1 hmem ?_)
        rw [← heq, hdigest]
    · rw [hfailed] at h ⊢
      exact .of_sublist ht h nofun nofun
  | cleanup at' clock =>
    cases at' with
    | some at' =>
      obtain rfl := Option.some.inj hseen
      exact .of_sublist (.refl _) h nofun nofun
    | none =>
      obtain ⟨now, rfl, rfl⟩ := exists_fin_of_seenAt hseen
      exact .of_sublist (.refl _) h nofun nofun

end Origins

/-! ## Digests -/

section Digests

open DashboardAuthManager

variable {D : Type} [DecidableEq D] {digest : Text → D} {ttls : DashboardTtls}
  {s : DashboardAuthManager D}

/-- The digests after a call: some of the old ones, and perhaps that of a new token. -/
def Refills (digest : Text → D) (call : AuthCall) (before after : List D) : Prop :=
  ∃ old, old.Sublist before ∧ (after = old ∨
    ∃ token, call.drawn = some token ∧ after = digestToken digest (some token.1) :: old)

variable {call : AuthCall}

omit [DecidableEq D] in
theorem Refills.of_sublist {before after : List D} (h : after.Sublist before) :
    Refills digest call before after :=
  ⟨after, h, .inl rfl⟩

omit [DecidableEq D] in
theorem Refills.nodup {before after : List D} (h : Refills digest call before after)
    (hnodup : before.Nodup)
    (hnew : ∀ token, call.drawn = some token → digestToken digest (some token.1) ∉ before) :
    after.Nodup := by
  obtain ⟨old, hold, rfl | ⟨token, hdrawn, rfl⟩⟩ := h
  · exact hnodup.sublist hold
  · exact List.nodup_cons.mpr
      ⟨fun hmem => hnew token hdrawn (hold.subset hmem), hnodup.sublist hold⟩

omit [DecidableEq D] in
theorem refills_issueSession {now : ℚ} {random : Option Token} {t : DashboardAuthManager D}
    (hdrawn : call.drawn = random) (ht : t.sessions.Sublist s.sessions) :
    Refills digest call (s.sessions.map SessionRecord.digest)
      ((t.issueSession digest ttls now random).1.sessions.map SessionRecord.digest) := by
  rcases issueSession_cases digest ttls t now random with hthrew | ⟨token, hrandom, hissue⟩
  · rw [hthrew]
    exact .of_sublist (ht.map _)
  · rw [hissue]
    exact ⟨_, ht.map _, .inr ⟨token, hdrawn.trans hrandom, rfl⟩⟩

omit [DecidableEq D] in
/-- Issuing a session leaves the bootstraps alone. -/
@[simp] theorem bootstraps_issueSession (t : DashboardAuthManager D) (now : ℚ)
    (random : Option Token) :
    (t.issueSession digest ttls now random).1.bootstraps = t.bootstraps := by
  cases random <;> rfl

/-- The digests of both kinds of records after a call. -/
structure RefillsBoth (digest : Text → D) (call : AuthCall) (s s' : DashboardAuthManager D) :
    Prop where
  sessions : Refills digest call (s.sessions.map SessionRecord.digest)
    (s'.sessions.map SessionRecord.digest)
  bootstraps : Refills digest call (s.bootstraps.map BootstrapRecord.digest)
    (s'.bootstraps.map BootstrapRecord.digest)

omit [DecidableEq D] in
theorem RefillsBoth.cleanup (call : AuthCall) (at_ : Number) :
    RefillsBoth digest call s (s.cleanup at_) :=
  ⟨.of_sublist (List.filter_sublist.map _), .of_sublist (List.filter_sublist.map _)⟩

omit [DecidableEq D] in
theorem RefillsBoth.nowFrom {clock : Number} {f : ℚ → DashboardAuthManager D × AuthAnswer}
    (h : ∀ now, RefillsBoth digest call s (f now).1) :
    RefillsBoth digest call s (s.nowFrom clock f).1 := by
  cases clock with
  | fin now => exact h now
  | nan => exact ⟨.of_sublist (.refl _), .of_sublist (.refl _)⟩
  | negInf => exact ⟨.of_sublist (.refl _), .of_sublist (.refl _)⟩
  | posInf => exact ⟨.of_sublist (.refl _), .of_sublist (.refl _)⟩

theorem sublist_validateSession (digest : Text → D) (ttls : DashboardTtls)
    (s : DashboardAuthManager D) (candidate : Candidate) (now : ℚ) :
    ((s.validateSession digest ttls candidate now).1.sessions.map SessionRecord.digest).Sublist
        (s.sessions.map SessionRecord.digest) ∧
      (s.validateSession digest ttls candidate now).1.bootstraps.Sublist s.bootstraps := by
  unfold validateSession
  rcases resolveSession_cases digest s candidate now with
    ⟨record, hfound, -⟩ | ⟨t, reason, hfailed, hboot, ht⟩
  · rw [hfound]
    refine ⟨?_, List.filter_sublist⟩
    change (((s.cleanup (.fin now)).sessions.replace record _).map SessionRecord.digest).Sublist _
    have hdigest : (touched ttls record now).digest = record.digest := rfl
    rw [map_replace (f := SessionRecord.digest) hdigest]
    exact List.filter_sublist.map _
  · rw [hfailed]
    exact ⟨(ht.trans List.filter_sublist).map _, hboot⟩

theorem sublist_logout (digest : Text → D) (s : DashboardAuthManager D) (candidate : Candidate)
    (now : ℚ) :
    (s.logout digest candidate now).1.sessions.Sublist s.sessions ∧
      (s.logout digest candidate now).1.bootstraps.Sublist s.bootstraps := by
  unfold logout
  rcases resolveSession_cases digest s candidate now with
    ⟨record, hfound, -⟩ | ⟨t, reason, hfailed, hboot, ht⟩
  · rw [hfound]
    exact ⟨List.erase_sublist.trans List.filter_sublist, List.filter_sublist⟩
  · rw [hfailed]
    exact ⟨ht.trans List.filter_sublist, hboot⟩

/-- **The digests after a call.** -/
theorem refillsBoth_step (s : DashboardAuthManager D) (call : AuthCall) :
    RefillsBoth digest call s (s.step digest ttls call).1 := by
  cases call with
  | createBootstrap clock random =>
    refine RefillsBoth.nowFrom fun now => ?_
    rcases random with _ | token
    · exact .cleanup _ _
    · exact ⟨.of_sublist (List.filter_sublist.map _),
        _, List.filter_sublist.map _, .inr ⟨token, rfl, rfl⟩⟩
  | createSession clock random =>
    refine RefillsBoth.nowFrom fun now => ⟨?_, .of_sublist ?_⟩
    · exact refills_issueSession (t := s.cleanup (.fin now)) rfl List.filter_sublist
    · change ((DashboardAuthManager.issueSession _ _ _ _ _).1.bootstraps.map _).Sublist _
      rw [bootstraps_issueSession]
      exact List.filter_sublist.map _
  | exchangeBootstrap candidate clock random =>
    refine RefillsBoth.nowFrom fun now => ?_
    rcases exchangeBootstrap_cases digest ttls s candidate now random with
      ⟨active, -, -, -, t, hboot, ht, heq⟩ | ⟨t, reason, heq, ht, hboot⟩
    · rw [heq]
      refine ⟨refills_issueSession rfl (ht ▸ List.filter_sublist), .of_sublist ?_⟩
      rw [bootstraps_issueSession]
      exact (hboot.trans List.erase_sublist).map _
    · rw [heq]
      exact ⟨.of_sublist ((ht ▸ List.filter_sublist : t.sessions.Sublist s.sessions).map _),
        .of_sublist (hboot.map _)⟩
  | validateSession candidate clock =>
    refine RefillsBoth.nowFrom fun now => ?_
    obtain ⟨hsessions, hboot⟩ := sublist_validateSession digest ttls s candidate now
    exact ⟨.of_sublist hsessions, .of_sublist (hboot.map _)⟩
  | logout candidate clock =>
    refine RefillsBoth.nowFrom fun now => ?_
    obtain ⟨hsessions, hboot⟩ := sublist_logout digest s candidate now
    exact ⟨.of_sublist (hsessions.map _), .of_sublist (hboot.map _)⟩
  | cleanup at' clock =>
    cases at' with
    | some at' => exact .cleanup _ _
    | none => exact RefillsBoth.nowFrom fun now => .cleanup _ _

end Digests

/-! ## Answers -/

section Answers

open DashboardAuthManager

variable {D : Type} [DecidableEq D] {digest : Text → D} {ttls : DashboardTtls}
  {s : DashboardAuthManager D}

variable {candidate : Candidate} {clock : Number} {call : AuthCall}

theorem valid_step {idle absolute : ℚ}
    (h : (s.step digest ttls (.validateSession candidate clock)).2 = .valid idle absolute) :
    ∃ now record, clock = .fin now ∧ record ∈ s.sessions ∧
      record.digest = digestToken digest candidate ∧ record.isUp (.fin now) = false ∧
      record.absoluteExpiresAt = absolute := by
  cases clock with
  | fin now =>
    change (s.validateSession digest ttls candidate now).2 = _ at h
    unfold validateSession at h
    rcases resolveSession_cases digest s candidate now with
      ⟨record, hfound, hmem, hdigest, hup⟩ | ⟨t, reason, hfailed, -⟩
    · rw [hfound] at h
      injection h with hidle habsolute
      exact ⟨now, record, rfl, hmem, hdigest, hup, habsolute⟩
    · rw [hfailed] at h
      cases h
  | _ => cases h

theorem revoked_step (h : (s.step digest ttls (.logout candidate clock)).2 = .revoked) :
    ∃ record ∈ s.sessions, record.digest = digestToken digest candidate := by
  cases clock with
  | fin now =>
    change (s.logout digest candidate now).2 = _ at h
    unfold logout at h
    rcases resolveSession_cases digest s candidate now with
      ⟨record, -, hmem, hdigest, -⟩ | ⟨t, reason, hfailed, -⟩
    · exact ⟨record, hmem, hdigest⟩
    · rw [hfailed] at h
      cases h
  | _ => cases h

theorem exchange_step {random : Option Token} {token : Token} {idle absolute : ℚ}
    (h : (s.step digest ttls (.exchangeBootstrap candidate clock random)).2
      = .session token idle absolute) :
    ∃ now active, clock = .fin now ∧ active ∈ s.bootstraps ∧
      active.digest = digestToken digest candidate ∧ now < active.expiresAt ∧
      (s.step digest ttls (.exchangeBootstrap candidate clock random)).1.bootstraps.Sublist
        (s.bootstraps.erase active) := by
  cases clock with
  | fin now =>
    change (s.exchangeBootstrap digest ttls candidate now random).2 = _ at h
    change ∃ now' active, _ ∧ _ ∧ _ ∧ _ ∧
      (s.exchangeBootstrap digest ttls candidate now random).1.bootstraps.Sublist _
    rcases exchangeBootstrap_cases digest ttls s candidate now random with
      ⟨active, hmem, hdigest, hlive, t, hboot, -, heq⟩ | ⟨t, reason, heq, -⟩
    · rw [heq, bootstraps_issueSession]
      exact ⟨now, active, rfl, hmem, hdigest, hlive, hboot⟩
    · rw [heq] at h
      cases h
  | _ => cases h

omit [DecidableEq D] in
theorem issued_issueSession (t : DashboardAuthManager D) (now : ℚ) (random : Option Token) :
    (t.issueSession digest ttls now random).2.issued = random := by
  cases random <;> rfl

theorem drawn_of_issued (digest : Text → D) (ttls : DashboardTtls) (s : DashboardAuthManager D)
    {token : Token} (h : (s.step digest ttls call).2.issued = some token) :
    call.drawn = some token := by
  cases call with
  | createBootstrap clock random =>
    cases clock with
    | fin now =>
      rcases random with _ | other
      · cases h
      · exact h
    | _ => cases h
  | createSession clock random =>
    cases clock with
    | fin now => exact (issued_issueSession _ now random).symm.trans h
    | _ => cases h
  | exchangeBootstrap candidate clock random =>
    cases clock with
    | fin now =>
      change (s.exchangeBootstrap digest ttls candidate now random).2.issued = _ at h
      rcases exchangeBootstrap_cases digest ttls s candidate now random with
        ⟨active, -, -, -, t, -, -, heq⟩ | ⟨t, reason, heq, -⟩
      · rw [heq, issued_issueSession] at h
        exact h
      · rw [heq] at h
        cases h
    | _ => cases h
  | validateSession candidate clock =>
    cases clock with
    | fin now =>
      change (s.validateSession digest ttls candidate now).2.issued = _ at h
      unfold validateSession at h
      rcases resolveSession_cases digest s candidate now with
        ⟨record, hfound, -⟩ | ⟨t, reason, hfailed, -⟩
      · rw [hfound] at h
        cases h
      · rw [hfailed] at h
        cases h
    | _ => cases h
  | logout candidate clock =>
    cases clock with
    | fin now =>
      change (s.logout digest candidate now).2.issued = _ at h
      unfold logout at h
      rcases resolveSession_cases digest s candidate now with
        ⟨record, hfound, -⟩ | ⟨t, reason, hfailed, -⟩
      · rw [hfound] at h
        cases h
      · rw [hfailed] at h
        cases h
    | _ => cases h
  | cleanup at' clock => rcases at' with _ | at' <;> cases clock <;> cases h

/-- Where the bootstraps after a call come from. -/
theorem bootstrap_origin_step {record : BootstrapRecord D}
    (h : record ∈ (s.step digest ttls call).1.bootstraps) :
    record ∈ s.bootstraps ∨
      ∃ token, (s.step digest ttls call).2 = .bootstrap token record.expiresAt ∧
        record.digest = digestToken digest (some token.1) := by
  cases call with
  | createBootstrap clock random =>
    cases clock with
    | fin now =>
      rcases random with _ | token
      · exact .inl (List.mem_of_mem_filter h)
      · rcases List.mem_cons.mp h with rfl | hold
        · exact .inr ⟨token, rfl, rfl⟩
        · exact .inl (List.mem_of_mem_filter hold)
    | _ => exact .inl h
  | createSession clock random =>
    cases clock with
    | fin now =>
      change record ∈ (DashboardAuthManager.issueSession _ _ _ _ _).1.bootstraps at h
      rw [bootstraps_issueSession] at h
      exact .inl (List.mem_of_mem_filter h)
    | _ => exact .inl h
  | exchangeBootstrap candidate clock random =>
    cases clock with
    | fin now =>
      change record ∈ (s.exchangeBootstrap digest ttls candidate now random).1.bootstraps at h
      rcases exchangeBootstrap_cases digest ttls s candidate now random with
        ⟨active, -, -, -, t, hboot, -, heq⟩ | ⟨t, reason, heq, -, hboot⟩
      · rw [heq, bootstraps_issueSession] at h
        exact .inl ((hboot.trans List.erase_sublist).subset h)
      · rw [heq] at h
        exact .inl (hboot.subset h)
    | _ => exact .inl h
  | validateSession candidate clock =>
    cases clock with
    | fin now => exact .inl ((sublist_validateSession digest ttls s candidate now).2.subset h)
    | _ => exact .inl h
  | logout candidate clock =>
    cases clock with
    | fin now => exact .inl ((sublist_logout digest s candidate now).2.subset h)
    | _ => exact .inl h
  | cleanup at' clock =>
    rcases at' with _ | at'
    · cases clock with
      | fin now => exact .inl (List.mem_of_mem_filter h)
      | _ => exact .inl h
    · exact .inl (List.mem_of_mem_filter h)

theorem step_of_not_seen (digest : Text → D) (ttls : DashboardTtls) (s : DashboardAuthManager D)
    (h : call.seenAt = none) : s.step digest ttls call = (s, .threw) := by
  have hclock : ∀ {clock : Number} {f : ℚ → DashboardAuthManager D × AuthAnswer},
      clock.rat?.map Number.fin = none → s.nowFrom clock f = (s, .threw) := by
    intro clock f hnone
    cases clock with
    | fin now => cases hnone
    | _ => rfl
  cases call with
  | cleanup at' clock =>
    cases at' with
    | none => exact hclock h
    | some at' => cases h
  | _ => exact hclock h

end Answers

end LlmRelay.Dashboard
