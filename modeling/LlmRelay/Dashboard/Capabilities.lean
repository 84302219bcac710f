import LlmRelay.Dashboard.Auth
import LlmRelay.Transition.Run

/-!
# One-time capabilities that expire for good

What the answers of the manager say about a token: when it was issued, until when its session
lasts, and whether a call has seen it expired. The records of the manager agree with it after
every run, so what is used is what was issued and still lasts.

## Main definitions

* `IssuedBootstrap`, `IssuedSession`, `currentIdle`: what was answered about a token;
* `LoggedOut`, `SeenExpired`: how a session ends;
* `Kept`: what holds of the records and the answers after every run.

## Main results

* `dashboard_capabilities_expire`: a bootstrap yields one session, before it expires; a session
  is valid before both of its expiries, and never again after one was seen or it was logged out.
-/

namespace LlmRelay.Dashboard

open Ecma Transition DashboardAuthManager

/-! ## What was answered -/

/-- The calls of a run with their answers. -/
abbrev Log := List (AuthCall × AuthAnswer)

def IssuedBootstrap (log : Log) (token : Token) (expiresAt : ℚ) : Prop :=
  ∃ call, (call, AuthAnswer.bootstrap token expiresAt) ∈ log

def IssuedSession (log : Log) (token : Token) (absoluteExpiresAt : ℚ) : Prop :=
  ∃ call idle, (call, AuthAnswer.session token idle absoluteExpiresAt) ∈ log

/-- The idle expiry that a call states for a session. -/
def idleReport (token : Token) : AuthCall × AuthAnswer → Option ℚ
  | (_, .session token' idle _) => if token' = token then some idle else none
  | (.validateSession candidate _, .valid idle _) =>
    if candidate = some token.1 then some idle else none
  | _ => none

/-- The idle expiry that was stated last. -/
def currentIdle (log : Log) (token : Token) : Option ℚ :=
  (log.filterMap (idleReport token)).getLast?

def LoggedOut (log : Log) (token : Token) : Prop :=
  ∃ clock, (AuthCall.logout (some token.1) clock, AuthAnswer.revoked) ∈ log

/-- A call reads the clock when the session has expired. -/
def SeesExpired (before : Log) (call : AuthCall) (token : Token) : Prop :=
  ∃ at_ absolute idle, call.seenAt = some at_ ∧ IssuedSession before token absolute ∧
    currentIdle before token = some idle ∧ (isUp absolute at_ || isUp idle at_) = true

/-- Some call saw that the session had expired. -/
def SeenExpired (log : Log) (token : Token) : Prop :=
  ∃ before e after, log = before ++ e :: after ∧ SeesExpired before e.1 token

/-- Does a call exchange the bootstrap for a session? -/
def yieldsSession (bootstrap : Token) : AuthCall × AuthAnswer → Bool
  | (.exchangeBootstrap candidate _ _, .session _ _ _) => candidate = some bootstrap.1
  | _ => false

section Logs

variable {log : Log} {e : AuthCall × AuthAnswer} {token : Token}

theorem IssuedBootstrap.snoc {expiresAt : ℚ} (h : IssuedBootstrap log token expiresAt) :
    IssuedBootstrap (log ++ [e]) token expiresAt :=
  h.imp fun _ hmem => List.mem_append_left _ hmem

theorem IssuedSession.snoc {absolute : ℚ} (h : IssuedSession log token absolute) :
    IssuedSession (log ++ [e]) token absolute := by
  obtain ⟨call, idle, hmem⟩ := h
  exact ⟨call, idle, List.mem_append_left _ hmem⟩

theorem currentIdle_snoc :
    currentIdle (log ++ [e]) token = (idleReport token e).or (currentIdle log token) := by
  unfold currentIdle
  rw [List.filterMap_append, List.getLast?_append, List.filterMap_cons]
  cases idleReport token e <;> rfl

theorem loggedOut_snoc_iff :
    LoggedOut (log ++ [e]) token ↔
      LoggedOut log token ∨ ∃ clock, e = (.logout (some token.1) clock, .revoked) := by
  unfold LoggedOut
  simp only [List.mem_append, List.mem_singleton, eq_comm, exists_or]

theorem seenExpired_snoc_iff :
    SeenExpired (log ++ [e]) token ↔ SeenExpired log token ∨ SeesExpired log e.1 token := by
  constructor
  · rintro ⟨before, e', after, heq, hsees⟩
    rcases List.eq_nil_or_concat after with rfl | ⟨after, last, rfl⟩
    · obtain ⟨rfl, hlast⟩ := List.append_inj' heq rfl
      rw [List.singleton_inj.mp hlast]
      exact .inr hsees
    · rw [List.concat_eq_append, ← List.cons_append, ← List.append_assoc] at heq
      exact .inl ⟨before, e', after, (List.append_inj' heq rfl).1, hsees⟩
  · rintro (⟨before, e', after, rfl, hsees⟩ | hsees)
    · exact ⟨before, e', after ++ [e], by simp, hsees⟩
    · exact ⟨log, e, [], rfl, hsees⟩

theorem SeenExpired.issued (h : SeenExpired log token) :
    ∃ absolute, IssuedSession log token absolute := by
  obtain ⟨before, e, after, rfl, _, absolute, _, _, ⟨call, idle, hmem⟩, _⟩ := h
  exact ⟨absolute, call, idle, List.mem_append_left _ hmem⟩

theorem issued_or_used_of_idleReport {call : AuthCall} {answer : AuthAnswer}
    (h : idleReport token (call, answer) ≠ none) :
    (∃ idle absolute, answer = .session token idle absolute) ∨
      uses call answer (some token.1) := by
  unfold idleReport at h
  split at h
  · rename_i heq
    injection heq with _ hanswer
    split at h
    · rename_i htoken
      rw [hanswer, htoken]
      exact .inl ⟨_, _, rfl⟩
    · exact absurd rfl h
  · rename_i heq
    injection heq with hcall hanswer
    split at h
    · rename_i hcandidate
      rw [hcall, hanswer, hcandidate]
      exact .inr (.inl ⟨_, _, _, rfl, rfl⟩)
    · exact absurd rfl h
  · exact absurd rfl h

theorem eq_of_nodup_filterMap {α β : Type*} {f : α → Option β} {l : List α} {x y : α} {b : β}
    (hnodup : (l.filterMap f).Nodup) (hx : x ∈ l) (hy : y ∈ l) (hfx : f x = some b)
    (hfy : f y = some b) : x = y := by
  induction l with
  | nil => exact absurd hx List.not_mem_nil
  | cons a l ih =>
    have hmem : ∀ z ∈ l, f z = some b → b ∈ l.filterMap f := fun z hz hfz =>
      List.mem_filterMap.mpr ⟨z, hz, hfz⟩
    rw [List.filterMap_cons] at hnodup
    rcases List.mem_cons.mp hx with rfl | hxl <;> rcases List.mem_cons.mp hy with rfl | hyl
    · rfl
    · rw [hfx] at hnodup
      exact absurd (hmem y hyl hfy) (List.nodup_cons.mp hnodup).1
    · rw [hfy] at hnodup
      exact absurd (hmem x hxl hfx) (List.nodup_cons.mp hnodup).1
    · refine ih ?_ hxl hyl
      cases hfa : f a with
      | none => rwa [hfa] at hnodup
      | some c =>
        rw [hfa] at hnodup
        exact (List.nodup_cons.mp hnodup).2

end Logs

/-! ## The records and the answers -/

section Kept

variable {D : Type} [DecidableEq D]

/-- The tokens that were drawn. -/
def drawn (log : Log) : List Token :=
  log.filterMap fun e => e.1.drawn

/-- A record is the session of a token: issued, still in use and not seen expired. -/
structure Held (digest : Text → D) (log : Log) (record : SessionRecord D) (token : Token) :
    Prop where
  digest : record.digest = digestToken digest (some token.1)
  issued : IssuedSession log token record.absoluteExpiresAt
  idle : currentIdle log token = some record.idleExpiresAt
  notLoggedOut : ¬ LoggedOut log token
  notSeen : ¬ SeenExpired log token

/-- A record is a bootstrap that was issued and not exchanged. -/
structure Unspent (digest : Text → D) (log : Log) (record : BootstrapRecord D) (token : Token) :
    Prop where
  digest : record.digest = digestToken digest (some token.1)
  issued : IssuedBootstrap log token record.expiresAt
  unspent : ∀ e ∈ log, yieldsSession token e = false

/-- What holds of the records and the answers after every run. -/
structure Kept (digest : Text → D) (s : DashboardAuthManager D) (log : Log) : Prop where
  sessions : ∀ record ∈ s.sessions, ∃ token, Held digest log record token
  bootstraps : ∀ record ∈ s.bootstraps, ∃ token, Unspent digest log record token
  sessionDigests : (s.sessions.map SessionRecord.digest).Nodup
  bootstrapDigests : (s.bootstraps.map BootstrapRecord.digest).Nodup
  issued : ∀ e ∈ log, ∀ token, e.2.issued = some token → e.1.drawn = some token
  revoked : ∀ token, LoggedOut log token → token ∈ drawn log
  yielded : ∀ e ∈ log, ∀ token, yieldsSession token e = true → token ∈ drawn log
  once : ∀ bootstrap, log.countP (yieldsSession bootstrap) ≤ 1

variable {digest : Text → D} {ttls : DashboardTtls} {s : DashboardAuthManager D} {log : Log}

variable {token : Token}

omit [DecidableEq D] in
theorem eq_some_of_digestToken (hdigest : Function.Injective digest) {candidate : Candidate}
    (h : digestToken digest candidate = digestToken digest (some token.1)) :
    candidate = some token.1 := by
  have hvalue : candidate.getD INVALID_TOKEN = token.1 := hdigest h
  rcases candidate with _ | value
  · exact absurd hvalue.symm token.ne_invalid
  · exact congrArg some hvalue

@[simp] theorem drawn_snoc (log : Log) (e : AuthCall × AuthAnswer) :
    drawn (log ++ [e]) = drawn log ++ e.1.drawn.toList := by
  unfold drawn
  rw [List.filterMap_append, List.filterMap_cons]
  cases e.1.drawn <;> rfl

omit [DecidableEq D] in
theorem Kept.issuedSession (h : Kept digest s log) {absolute : ℚ}
    (hissued : IssuedSession log token absolute) : token ∈ drawn log := by
  obtain ⟨call, idle, hmem⟩ := hissued
  exact List.mem_filterMap.mpr ⟨_, hmem, h.issued _ hmem token rfl⟩

/-- A call whose token was not drawn before. -/
structure Fresh (log : Log) (call : AuthCall) : Prop where
  distinct : (drawn log).Nodup
  fresh : ∀ token, call.drawn = some token → token ∉ drawn log

theorem IssuedSession.unique {a b : ℚ}
    (hlog : ∀ e ∈ log, ∀ token, e.2.issued = some token → e.1.drawn = some token)
    (hdistinct : (drawn log).Nodup) (ha : IssuedSession log token a)
    (hb : IssuedSession log token b) : a = b := by
  obtain ⟨call, idle, hmem⟩ := ha
  obtain ⟨call', idle', hmem'⟩ := hb
  have heq := eq_of_nodup_filterMap hdistinct hmem hmem' (hlog _ hmem token rfl)
    (hlog _ hmem' token rfl)
  injection heq with _ hanswer
  injection hanswer

section Steps

variable {call : AuthCall} {answer : AuthAnswer} {record : SessionRecord D} {token : Token}

omit [DecidableEq D] in
theorem Held.not_sees (h : Held digest log record token) (hkept : Kept digest s log)
    (hdistinct : (drawn log).Nodup)
    (hup : ∀ at_, call.seenAt = some at_ → record.isUp at_ = false) :
    ¬ SeesExpired log call token := by
  rintro ⟨at_, absolute, idle, hseen, hissued, hidle, hexpired⟩
  rw [hissued.unique hkept.issued hdistinct h.issued] at hexpired
  rw [h.idle] at hidle
  rw [← Option.some.inj hidle] at hexpired
  have hnot := hup at_ hseen
  rw [SessionRecord.isUp, hexpired] at hnot
  cases hnot

omit [DecidableEq D] in
theorem Held.snoc (h : Held digest log record token) (hkept : Kept digest s log)
    (hdistinct : (drawn log).Nodup) (hup : ∀ at_, call.seenAt = some at_ → record.isUp at_ = false)
    (hreport : idleReport token (call, answer) = none)
    (hlogout : ∀ clock, (call, answer) ≠ (.logout (some token.1) clock, .revoked)) :
    Held digest (log ++ [(call, answer)]) record token where
  digest := h.digest
  issued := h.issued.snoc
  idle := by rw [currentIdle_snoc, hreport, Option.none_or, h.idle]
  notLoggedOut := by
    rw [loggedOut_snoc_iff]
    rintro (hold | ⟨clock, heq⟩)
    · exact h.notLoggedOut hold
    · exact hlogout clock heq
  notSeen := by
    rw [seenExpired_snoc_iff]
    rintro (hold | hsees)
    · exact h.notSeen hold
    · exact h.not_sees hkept hdistinct hup hsees

variable {clock : Number} {record' : SessionRecord D}

omit [DecidableEq D] in
/-- A session that was used. -/
theorem Held.used (h : Held digest log record token) (hkept : Kept digest s log)
    (hdistinct : (drawn log).Nodup) {at_ : Number}
    (hseen : (AuthCall.validateSession (some token.1) clock).seenAt = some at_)
    (hup : record.isUp at_ = false) (hdigest : record'.digest = record.digest)
    (habsolute : record'.absoluteExpiresAt = record.absoluteExpiresAt) :
    Held digest (log ++ [(.validateSession (some token.1) clock,
      .valid record'.idleExpiresAt record'.absoluteExpiresAt)]) record' token where
  digest := hdigest.trans h.digest
  issued := habsolute ▸ h.issued.snoc
  idle := by
    rw [currentIdle_snoc, idleReport, if_pos rfl]
    rfl
  notLoggedOut := by
    rw [loggedOut_snoc_iff]
    rintro (hold | ⟨clock, heq⟩)
    · exact h.notLoggedOut hold
    · cases heq
  notSeen := by
    rw [seenExpired_snoc_iff]
    rintro (hold | hsees)
    · exact h.notSeen hold
    · refine h.not_sees hkept hdistinct (fun at' hat => ?_) hsees
      rw [hseen] at hat
      rw [← Option.some.inj hat]
      exact hup

omit [DecidableEq D] in
theorem held_issued (hkept : Kept digest s log) (hfresh : token ∉ drawn log)
    (hdigest : record.digest = digestToken digest (some token.1))
    (hanswer : answer = .session token record.idleExpiresAt record.absoluteExpiresAt) :
    Held digest (log ++ [(call, answer)]) record token where
  digest := hdigest
  issued := ⟨call, record.idleExpiresAt, by rw [hanswer]; exact List.mem_append_right _ (by simp)⟩
  idle := by
    rw [currentIdle_snoc, hanswer]
    change (if token = token then _ else _ : Option ℚ).or _ = _
    rw [if_pos rfl, Option.some_or]
  notLoggedOut := by
    rw [loggedOut_snoc_iff]
    rintro (hold | ⟨clock, heq⟩)
    · exact hfresh (hkept.revoked token hold)
    · injection heq with _ hrevoked
      rw [hanswer] at hrevoked
      cases hrevoked
  notSeen := by
    rw [seenExpired_snoc_iff]
    rintro (hold | ⟨_, absolute, _, _, hissued, _⟩)
    · obtain ⟨absolute, hissued⟩ := hold.issued
      exact hfresh (hkept.issuedSession hissued)
    · exact hfresh (hkept.issuedSession hissued)

variable (hdigest : Function.Injective digest)

include hdigest

variable (h : Kept digest s log)

include h

theorem Kept.sessions_step
    (hfresh : Fresh log call) (hmem : record' ∈ (s.step digest ttls call).1.sessions) :
    ∃ token, Held digest (log ++ [(call, (s.step digest ttls call).2)]) record' token := by
  cases hseen : call.seenAt with
  | none =>
    have hstep := step_of_not_seen digest ttls s hseen
    rw [hstep] at hmem ⊢
    obtain ⟨token, hheld⟩ := h.sessions record' hmem
    refine ⟨token, hheld.snoc h hfresh.distinct (fun at_ hat => ?_) ?_ nofun⟩
    · rw [hseen] at hat
      cases hat
    · cases call <;> rfl
  | some at_ =>
    have horigin := origin_step h.sessionDigests hseen hmem
    rcases horigin with
      ⟨token, hanswer, hdrawn, hnew⟩ |
      ⟨candidate, clock, record, rfl, hanswer, hrecord, hfound, hup, hsame, habsolute⟩ |
      ⟨hold, hup, huses⟩
    · exact ⟨token, held_issued h (hfresh.fresh token hdrawn) hnew hanswer⟩
    · obtain ⟨token, hheld⟩ := h.sessions record hrecord
      obtain rfl := eq_some_of_digestToken hdigest (hfound.symm.trans hheld.digest)
      rw [hanswer]
      exact ⟨token, hheld.used h hfresh.distinct hseen hup hsame habsolute⟩
    · obtain ⟨token, hheld⟩ := h.sessions record' hold
      refine ⟨token, hheld.snoc h hfresh.distinct (fun at' hat => ?_) ?_ fun clock heq => ?_⟩
      · rw [hseen] at hat
        rw [← Option.some.inj hat]
        exact hup
      · by_contra hreport
        rcases issued_or_used_of_idleReport hreport with ⟨idle, absolute, hanswer⟩ | hused
        · -- a new token is another one
          have hdrawn : call.drawn = some token :=
            drawn_of_issued digest ttls s (by rw [hanswer]; rfl)
          exact hfresh.fresh token hdrawn (h.issuedSession hheld.issued)
        · exact huses _ hused hheld.digest.symm
      · injection heq with hcall hanswer
        exact huses _ (.inr ⟨clock, hcall, hanswer⟩) hheld.digest.symm

theorem Kept.revoked_step
    (hanswer : (s.step digest ttls (.logout (some token.1) clock)).2 = .revoked) :
    token ∈ drawn log := by
  obtain ⟨record, hmem, hfound⟩ := Dashboard.revoked_step hanswer
  obtain ⟨other, hheld⟩ := h.sessions record hmem
  have heq := eq_some_of_digestToken hdigest (hfound.symm.trans hheld.digest)
  rw [Subtype.ext (Option.some.inj heq)]
  exact h.issuedSession hheld.issued

theorem Kept.exchange_step {candidate : Candidate} {random : Option Token} {idle absolute : ℚ}
    (hanswer : (s.step digest ttls (.exchangeBootstrap candidate clock random)).2
      = .session token idle absolute) :
    ∃ now active bootstrap, clock = .fin now ∧ candidate = some bootstrap.1 ∧
      active ∈ s.bootstraps ∧ Unspent digest log active bootstrap ∧ now < active.expiresAt ∧
      (s.step digest ttls (.exchangeBootstrap candidate clock random)).1.bootstraps.Sublist
        (s.bootstraps.erase active) := by
  obtain ⟨now, active, rfl, hmem, hfound, hlive, hsub⟩ := Dashboard.exchange_step hanswer
  obtain ⟨bootstrap, hunspent⟩ := h.bootstraps active hmem
  have heq := eq_some_of_digestToken hdigest (hfound.symm.trans hunspent.digest)
  exact ⟨now, active, bootstrap, rfl, heq, hmem, hunspent, hlive, hsub⟩

omit h

omit hdigest

omit [DecidableEq D] in
theorem Unspent.drawn {record : BootstrapRecord D} (h : Unspent digest log record token)
    (hkept : Kept digest s log) : token ∈ drawn log := by
  obtain ⟨call, hmem⟩ := h.issued
  exact List.mem_filterMap.mpr ⟨_, hmem, hkept.issued _ hmem token rfl⟩

theorem exists_exchange_of_yieldsSession (h : yieldsSession token (call, answer) = true) :
    ∃ clock random session idle absolute, call = .exchangeBootstrap (some token.1) clock random ∧
      answer = .session session idle absolute := by
  unfold yieldsSession at h
  split at h
  · rename_i heq
    injection heq with hcall hanswer
    rw [hcall, hanswer, of_decide_eq_true h]
    exact ⟨_, _, _, _, _, rfl, rfl⟩
  · cases h

theorem Kept.bootstraps_step (hdigest : Function.Injective digest) (h : Kept digest s log)
    (hfresh : Fresh log call) {record : BootstrapRecord D}
    (hmem : record ∈ (s.step digest ttls call).1.bootstraps) :
    ∃ token, Unspent digest (log ++ [(call, (s.step digest ttls call).2)]) record token := by
  rcases bootstrap_origin_step hmem with hold | ⟨token, hanswer, hnew⟩
  · obtain ⟨token, hunspent⟩ := h.bootstraps record hold
    refine ⟨token, hunspent.digest, hunspent.issued.snoc, fun e he => ?_⟩
    rcases List.mem_append.mp he with hin | hlast
    · exact hunspent.unspent e hin
    · rw [List.mem_singleton.mp hlast, ← Bool.not_eq_true]
      intro hyields
      obtain ⟨clock, random, session, idle, absolute, rfl, hanswer⟩ :=
        exists_exchange_of_yieldsSession hyields
      obtain ⟨now, active, bootstrap, -, hcandidate, hactive, hspent, -, hsub⟩ :=
        h.exchange_step hdigest hanswer
      -- the exchange took the only record with the digest of its token away
      have hsame : active.digest = record.digest := by
        rw [hspent.digest, hunspent.digest, ← hcandidate]
      have hdistinct := h.bootstrapDigests
      obtain ⟨hne, -⟩ := hdistinct.of_map.mem_erase_iff.mp (hsub.subset hmem)
      exact hne (List.inj_on_of_nodup_map hdistinct hold hactive hsame.symm)
  · have hdrawn : call.drawn = some token :=
      drawn_of_issued digest ttls s (by rw [hanswer]; rfl)
    refine ⟨token, hnew, ⟨call, by rw [hanswer]; exact List.mem_append_right _ (by simp)⟩,
      fun e he => ?_⟩
    rcases List.mem_append.mp he with hin | hlast
    · rw [← Bool.not_eq_true]
      exact fun hyields => hfresh.fresh token hdrawn (h.yielded e hin token hyields)
    · rw [List.mem_singleton.mp hlast, hanswer]
      cases call <;> rfl

/-- **One call** keeps the records and the answers in agreement. -/
theorem Kept.step (hdigest : Function.Injective digest) (h : Kept digest s log)
    (hfresh : Fresh log call) :
    Kept digest (s.step digest ttls call).1 (log ++ [(call, (s.step digest ttls call).2)]) where
  sessions := fun record hmem => h.sessions_step hdigest hfresh hmem
  bootstraps := fun record hmem => h.bootstraps_step hdigest hfresh hmem
  sessionDigests := by
    refine (refillsBoth_step s call).sessions.nodup h.sessionDigests fun token hdrawn hmem => ?_
    obtain ⟨record, hrecord, heq⟩ := List.mem_map.mp hmem
    obtain ⟨other, hheld⟩ := h.sessions record hrecord
    have hsame := eq_some_of_digestToken hdigest (heq.symm.trans hheld.digest)
    refine hfresh.fresh token hdrawn ?_
    rw [Subtype.ext (Option.some.inj hsame)]
    exact h.issuedSession hheld.issued
  bootstrapDigests := by
    refine (refillsBoth_step s call).bootstraps.nodup h.bootstrapDigests fun token hdrawn hmem => ?_
    obtain ⟨record, hrecord, heq⟩ := List.mem_map.mp hmem
    obtain ⟨other, hunspent⟩ := h.bootstraps record hrecord
    have hsame := eq_some_of_digestToken hdigest (heq.symm.trans hunspent.digest)
    refine hfresh.fresh token hdrawn ?_
    rw [Subtype.ext (Option.some.inj hsame)]
    exact hunspent.drawn h
  issued := by
    intro e he token hissued
    rcases List.mem_append.mp he with hin | hlast
    · exact h.issued e hin token hissued
    · rw [List.mem_singleton.mp hlast] at hissued ⊢
      exact drawn_of_issued digest ttls s hissued
  revoked := by
    intro token hrevoked
    rw [drawn_snoc]
    rcases loggedOut_snoc_iff.mp hrevoked with hin | ⟨clock, heq⟩
    · exact List.mem_append_left _ (h.revoked token hin)
    · injection heq with hcall hanswer
      subst hcall
      exact List.mem_append_left _ (h.revoked_step hdigest hanswer)
  yielded := by
    intro e he token hyields
    rw [drawn_snoc]
    rcases List.mem_append.mp he with hin | hlast
    · exact List.mem_append_left _ (h.yielded e hin token hyields)
    · rw [List.mem_singleton.mp hlast] at hyields
      obtain ⟨clock, random, session, idle, absolute, rfl, hanswer⟩ :=
        exists_exchange_of_yieldsSession hyields
      obtain ⟨now, active, bootstrap, -, hcandidate, -, hspent, -⟩ := h.exchange_step hdigest hanswer
      rw [Subtype.ext (Option.some.inj hcandidate)]
      exact List.mem_append_left _ (hspent.drawn h)
  once := by
    intro bootstrap
    rw [List.countP_append, List.countP_singleton]
    split
    · rename_i hyields
      obtain ⟨clock, random, session, idle, absolute, rfl, hanswer⟩ :=
        exists_exchange_of_yieldsSession hyields
      obtain ⟨now, active, other, -, hcandidate, -, hspent, -⟩ := h.exchange_step hdigest hanswer
      obtain rfl : bootstrap = other := Subtype.ext (Option.some.inj hcandidate)
      rw [List.countP_eq_zero.mpr fun e he => by rw [hspent.unspent e he]; exact Bool.false_ne_true]
    · exact h.once bootstrap

end Steps

end Kept

/-! ## Runs -/

section Runs

variable {D : Type} [DecidableEq D] (digest : Text → D) (ttls : DashboardTtls)

/-- The calls of a run with their answers. -/
def logOf (calls : List AuthCall) : Log :=
  history (DashboardAuthManager.step digest ttls) new calls

/-- The answer to a call after a run. -/
def answerAfter (calls : List AuthCall) (call : AuthCall) : AuthAnswer :=
  ((finalState (DashboardAuthManager.step digest ttls) new calls).step digest ttls call).2

theorem logOf_snoc (calls : List AuthCall) (call : AuthCall) :
    logOf digest ttls (calls ++ [call])
      = logOf digest ttls calls ++ [(call, answerAfter digest ttls calls call)] :=
  history_snoc _ _ _ _

theorem drawn_logOf (calls : List AuthCall) :
    drawn (logOf digest ttls calls) = calls.filterMap AuthCall.drawn := by
  conv_rhs => rw [← map_fst_history (DashboardAuthManager.step digest ttls) new calls]
  rw [List.filterMap_map]
  rfl

omit [DecidableEq D] in
theorem kept_new : Kept digest (new : DashboardAuthManager D) [] where
  sessions := fun _ h => absurd h List.not_mem_nil
  bootstraps := fun _ h => absurd h List.not_mem_nil
  sessionDigests := List.nodup_nil
  bootstrapDigests := List.nodup_nil
  issued := fun _ h => absurd h List.not_mem_nil
  revoked := fun _ ⟨_, h⟩ => absurd h List.not_mem_nil
  yielded := fun _ h => absurd h List.not_mem_nil
  once := fun _ => Nat.zero_le _

variable {digest}

theorem kept_run (hdigest : Function.Injective digest) {calls : List AuthCall}
    (hdistinct : (calls.filterMap AuthCall.drawn).Nodup) :
    Kept digest (finalState (DashboardAuthManager.step digest ttls) new calls)
      (logOf digest ttls calls) := by
  induction calls using List.reverseRecOn with
  | nil => exact kept_new digest
  | append_singleton calls call ih =>
    rw [List.filterMap_append, List.nodup_append] at hdistinct
    obtain ⟨hbefore, -, hnew⟩ := hdistinct
    rw [finalState_snoc, logOf_snoc]
    refine (ih hbefore).step hdigest ⟨?_, fun token hdrawn hmem => ?_⟩
    · rw [drawn_logOf]
      exact hbefore
    · rw [drawn_logOf] at hmem
      refine hnew token hmem token ?_ rfl
      rw [List.filterMap_cons, hdrawn]
      exact List.mem_cons_self

/-- **Capabilities are one-time and expire for good.** In every run of distinct tokens a
bootstrap yields at most one session, and only before it expires. A session is valid only where
it was issued and not logged out, before its absolute expiry, fixed at issue, and the idle expiry
stated last, and where no call has seen one of them passed. -/
theorem dashboard_capabilities_expire (hdigest : Function.Injective digest)
    (calls : List AuthCall) (hdistinct : (calls.filterMap AuthCall.drawn).Nodup) :
    (∀ bootstrap, (logOf digest ttls calls).countP (yieldsSession bootstrap) ≤ 1) ∧
      (∀ pre candidate clock random session idle absolute,
        pre ++ [.exchangeBootstrap candidate clock random] <+: calls →
        answerAfter digest ttls pre (.exchangeBootstrap candidate clock random)
          = .session session idle absolute →
        ∃ bootstrap expiresAt now, candidate = some bootstrap.1 ∧ clock = .fin now ∧
          IssuedBootstrap (logOf digest ttls pre) bootstrap expiresAt ∧ now < expiresAt) ∧
      ∀ pre candidate clock idle absolute, pre ++ [.validateSession candidate clock] <+: calls →
        answerAfter digest ttls pre (.validateSession candidate clock) = .valid idle absolute →
        ∃ session now current, candidate = some session.1 ∧ clock = .fin now ∧
          IssuedSession (logOf digest ttls pre) session absolute ∧
          currentIdle (logOf digest ttls pre) session = some current ∧
          now < absolute ∧ now < current ∧
          ¬ LoggedOut (logOf digest ttls pre) session ∧
          ¬ SeenExpired (logOf digest ttls pre) session := by
  have hkept : ∀ {pre call}, pre ++ [call] <+: calls →
      Kept digest (finalState (DashboardAuthManager.step digest ttls) new pre)
        (logOf digest ttls pre) := fun hpre =>
    kept_run ttls hdigest (hdistinct.sublist
      (((List.prefix_append _ _).trans hpre).sublist.filterMap AuthCall.drawn))
  refine ⟨(kept_run ttls hdigest hdistinct).once, ?_, ?_⟩
  · intro pre candidate clock random session idle absolute hpre hanswer
    obtain ⟨now, active, bootstrap, hclock, hcandidate, -, hspent, hlive, -⟩ :=
      (hkept hpre).exchange_step hdigest hanswer
    exact ⟨bootstrap, active.expiresAt, now, hcandidate, hclock, hspent.issued, hlive⟩
  · intro pre candidate clock idle absolute hpre hanswer
    obtain ⟨now, record, hclock, hmem, hfound, hup, rfl⟩ := valid_step hanswer
    obtain ⟨session, hheld⟩ := (hkept hpre).sessions record hmem
    have hcandidate := eq_some_of_digestToken hdigest (hfound.symm.trans hheld.digest)
    rw [SessionRecord.isUp, isUp_fin, isUp_fin, Bool.or_eq_false_iff, decide_eq_false_iff_not,
      decide_eq_false_iff_not, not_le, not_le] at hup
    exact ⟨session, now, record.idleExpiresAt, hcandidate, hclock, hheld.issued, hheld.idle, hup.1,
      hup.2, hheld.notLoggedOut, hheld.notSeen⟩

end Runs

/-- The token of 43 times the same character. -/
def tokenOf (c : CodeUnit) (h : isTokenCharacter c = true) : Token :=
  ⟨List.replicate 43 c, by simp [validTokenShape, TOKEN_LENGTH, h]⟩

/-- The session token of the run below. -/
def tokenB : Token :=
  tokenOf 0x62 (by decide)

/-- A bootstrap is exchanged twice, and the session is used before and after it idled. -/
def idledSession : List AuthCall :=
  [.createBootstrap 0 (some (tokenOf 0x61 (by decide))),
    .exchangeBootstrap (some (tokenOf 0x61 (by decide)).1) 1 (some tokenB),
    .exchangeBootstrap (some (tokenOf 0x61 (by decide)).1) 2 (some (tokenOf 0x63 (by decide))),
    .validateSession (some tokenB.1) 3, .cleanup (some 1800003) 0,
    .validateSession (some tokenB.1) 4]

/-- The session is valid at first, and not any more when the clock goes back. -/
theorem idled_session_expires_for_good :
    (answerAfter id .default (idledSession.take 3) (.validateSession (some tokenB.1) 3)
        = .valid 1800003 28800001 ∧
      answerAfter id .default (idledSession.take 5) (.validateSession (some tokenB.1) 4)
        = .failure .wrong) ∧
    (∀ bootstrap, (logOf id .default idledSession).countP (yieldsSession bootstrap) ≤ 1) ∧
      ∃ session now current, some tokenB.1 = some session.1 ∧ (3 : Number) = .fin now ∧
        IssuedSession (logOf id .default (idledSession.take 3)) session 28800001 ∧
        currentIdle (logOf id .default (idledSession.take 3)) session = some current ∧
        now < 28800001 ∧ now < current ∧
        ¬ LoggedOut (logOf id .default (idledSession.take 3)) session ∧
        ¬ SeenExpired (logOf id .default (idledSession.take 3)) session := by
  have hvalid : answerAfter id .default (idledSession.take 3) (.validateSession (some tokenB.1) 3)
      = .valid 1800003 28800001 := by decide +kernel
  have hdistinct : (idledSession.filterMap AuthCall.drawn).Nodup := by decide +kernel
  have hwrong : answerAfter id .default (idledSession.take 5) (.validateSession (some tokenB.1) 4)
      = .failure .wrong := by decide +kernel
  obtain ⟨honce, -, hcapable⟩ := dashboard_capabilities_expire .default Function.injective_id
    idledSession hdistinct
  exact ⟨⟨hvalid, hwrong⟩, honce,
    hcapable (idledSession.take 3) _ _ _ _ (List.take_prefix 4 idledSession) hvalid⟩

end LlmRelay.Dashboard
