import Mathlib.Algebra.Group.Int.Defs
import Mathlib.Data.List.Basic

/-!
# Throttled logins

The two entry points at which a password is verified, and the failed attempts that are counted by
user name and source address. Both run inside a metadata mutation, which keeps nothing of a
callback that throws. Passwords are hashed by a library; the audit log is left out.
-/
namespace LoginThrottle

open List Bool

def sessionTtlMs : Int := 30 * 24 * 60 * 60 * 1000
def sessionIdleTtlMs : Int := 7 * 24 * 60 * 60 * 1000
def loginFailureWindowMs : Int := 10 * 60 * 1000
def loginFailureLimit : Nat := 5
def loginBackoffBaseMs : Int := 60 * 1000
def loginBackoffMaxMs : Int := 60 * 60 * 1000

structure User where
  (userId username passwordHash : String)
  (isAdmin disabled : Bool)
  lastLoginAt : Option Int

structure Session where
  (sessionId userId csrfToken : String)
  (createdAt lastSeenAt expiresAt idleExpiresAt recentAuthAt : Int)
  revokedAt : Option Int

structure LoginAttempt where
  (username sourceIp : String)
  failedCount : Nat
  (windowStartedAt lastFailedAt : Int)
  lockedUntil : Option Int
  updatedAt : Int

structure Db where
  users : List User
  sessions : List Session
  loginAttempts : List LoginAttempt

inductive AuthError where
  | unauthenticated
  | invalidCredentials
  | authRateLimited

/-- A call with the instants at which it reads the clock: when the throttle is asked, when the
session is looked up, and when the password has been verified. -/
structure Call where
  (username password : String)
  sourceIp : Option String := none
  (startedAt checkedAt decidedAt : Int)

namespace Call

def source (call : Call) : String := call.sourceIp.getD "unknown"

end Call

/-- How the callback of a mutation ends: what it returns or throws, the candidate as it leaves it,
and the verdict on the password, where one was reached. -/
structure Ended (α : Type) where
  result : Except AuthError α
  db : Db
  verdict : Option Bool

/-- `mutate`: the candidate is kept if the callback returns. -/
def mutate {α : Type} (db : Db) (callback : Db → Ended α) : Ended α :=
  let ended := callback db
  match ended.result with
  | .ok _ => ended
  | .error _ => { ended with db }

def isAttemptOf (username sourceIp : String) (attempt : LoginAttempt) : Bool :=
  attempt.username = username && attempt.sourceIp = sourceIp

variable (db : Db)

def findAttempt (username sourceIp : String) : Option LoginAttempt :=
  db.loginAttempts.find? (isAttemptOf username sourceIp)

/-- `enforceLoginBackoff` refuses the call. -/
def isLocked (username sourceIp : String) (now : Int) : Bool :=
  ((findAttempt db username sourceIp).bind LoginAttempt.lockedUntil).any fun lockedUntil => now < lockedUntil

def clearLoginFailures (username sourceIp : String) : Db :=
  { db with loginAttempts := db.loginAttempts.filter fun attempt =>
      !isAttemptOf username sourceIp attempt }

def backoffMs (failedCount : Nat) : Int :=
  min (loginBackoffBaseMs * 2 ^ (failedCount - loginFailureLimit)) loginBackoffMaxMs

/-- A failure is counted in a row. -/
def LoginAttempt.fail (attempt : LoginAttempt) (now : Int) : LoginAttempt :=
  let failedCount := attempt.failedCount + 1
  { attempt with
    failedCount
    lastFailedAt := now
    updatedAt := now
    lockedUntil := if loginFailureLimit ≤ failedCount then some (now + backoffMs failedCount)
      else attempt.lockedUntil }

/-- Changes the first row for which `p` holds. -/
def modifyFirst (p : LoginAttempt → Bool) (f : LoginAttempt → LoginAttempt) :
    List LoginAttempt → List LoginAttempt
  | [] => []
  | attempt :: attempts =>
    if p attempt then f attempt :: attempts else attempt :: modifyFirst p f attempts

def newAttempt (username sourceIp : String) (now : Int) : LoginAttempt where
  username
  sourceIp
  failedCount := 0
  windowStartedAt := now
  lastFailedAt := now
  lockedUntil := none
  updatedAt := now

def recordFailedLogin (username sourceIp : String) (now : Int) : Db :=
  let db :=
    if (findAttempt db username sourceIp).all fun attempt =>
        loginFailureWindowMs < now - attempt.windowStartedAt then
      { db with loginAttempts := (clearLoginFailures db username sourceIp).loginAttempts ++
          [newAttempt username sourceIp now] }
    else db
  { db with loginAttempts :=
      modifyFirst (isAttemptOf username sourceIp) (LoginAttempt.fail · now) db.loginAttempts }

section EntryPoints
variable (verifyPassword : String → String → Bool)

def createSession (userId sessionId csrfToken : String) (now : Int) : Session where
  sessionId
  userId
  csrfToken
  createdAt := now
  lastSeenAt := now
  expiresAt := now + sessionTtlMs
  idleExpiresAt := now + sessionIdleTtlMs
  recentAuthAt := now
  revokedAt := none

def isSessionLive (session : Session) (now : Int) : Bool :=
  session.revokedAt.isNone && now < session.expiresAt && now < session.idleExpiresAt

def setUser (db : Db) (userId : String) (f : User → User) : Db :=
  { db with users := db.users.map fun user => if user.userId = userId then f user else user }

/-- What `login` returns from its mutation. -/
inductive Decision where
  | invalidCredentials
  | authenticated (session : Session)

/-- The user, if the password is theirs and they may log in. -/
def loginUser (db : Db) (call : Call) : Option User :=
  (db.users.find? fun user => user.username = call.username).filter fun user =>
    !user.disabled && verifyPassword call.password user.passwordHash

/-- The user of a session whose password is verified. -/
def sessionUser (db : Db) (call : Call) (session : Session) : Option User :=
  (db.users.find? fun user => user.userId = session.userId).filter fun user =>
    !user.disabled && user.username = call.username

/-- A wrong password is returned, not thrown. -/
def login (call : Call) (sessionId csrfToken : String) (db : Db) : Ended Decision :=
  mutate db fun db =>
    if isLocked db call.username call.source call.startedAt then
      ⟨.error .authRateLimited, db, none⟩
    else
      match loginUser verifyPassword db call with
      | none =>
        ⟨.ok .invalidCredentials, recordFailedLogin db call.username call.source call.decidedAt, some false⟩
      | some user =>
        let session := createSession user.userId sessionId csrfToken call.decidedAt
        let db := setUser db user.userId fun user => { user with lastLoginAt := some call.decidedAt }
        let db := clearLoginFailures db call.username call.source
        ⟨.ok (.authenticated session), { db with sessions := db.sessions ++ [session] }, some true⟩

/-- A wrong password is thrown from inside the mutation that counts it. -/
def reauthenticateSession (call : Call) (sessionId : Option String) (db : Db) : Ended Session :=
  match sessionId with
  | none => ⟨.error .unauthenticated, db, none⟩
  | some sessionId =>
    mutate db fun db =>
      if isLocked db call.username call.source call.startedAt then
        ⟨.error .authRateLimited, db, none⟩
      else
        match (db.sessions.find? fun session => session.sessionId = sessionId).filter
            (isSessionLive · call.checkedAt) with
        | none => ⟨.error .unauthenticated, db, none⟩
        | some session =>
          let failed := recordFailedLogin db call.username call.source call.decidedAt
          match sessionUser db call session with
          | none => ⟨.error .invalidCredentials, failed, none⟩
          | some user =>
            if verifyPassword call.password user.passwordHash then
              let session := { session with
                lastSeenAt := call.decidedAt
                idleExpiresAt := call.checkedAt + sessionIdleTtlMs
                recentAuthAt := call.decidedAt }
              let db := clearLoginFailures db call.username call.source
              let db := setUser db user.userId fun user => { user with lastLoginAt := some call.decidedAt }
              ⟨.ok session, { db with sessions := db.sessions.map fun row =>
                if row.sessionId = session.sessionId then session else row }, some true⟩
            else ⟨.error .invalidCredentials, failed, some false⟩

end EntryPoints

/-- A call that reached the verification of its password. -/
structure Verification where
  (username sourceIp : String)
  decidedAt : Int
  succeeded : Bool

/-- The metadata and what became of the passwords that were verified, latest first. -/
structure State where
  db : Db
  history : List Verification

inductive Label where
  | login (call : Call) (sessionId csrfToken : String)
  | reauthenticate (call : Call) (sessionId : Option String)
  /-- Any other mutation: none of them reads or writes the counted failures. -/
  | mutate (users : List User) (sessions : List Session)

namespace State
variable (verifyPassword : String → String → Bool)

def record {α : Type} (s : State) (call : Call) (ended : Ended α) : State where
  db := ended.db
  history := match ended.verdict with
    | some succeeded => ⟨call.username, call.source, call.decidedAt, succeeded⟩ :: s.history
    | none => s.history

def step (s : State) : Label → State
  | .login call sessionId csrfToken =>
    s.record call (login verifyPassword call sessionId csrfToken s.db)
  | .reauthenticate call sessionId =>
    s.record call (reauthenticateSession verifyPassword call sessionId s.db)
  | .mutate users sessions => { s with db := { s.db with users, sessions } }

def run (s : State) (labels : List Label) : State := labels.foldl (step verifyPassword) s

/-- A server on which nobody has failed yet. -/
def start (users : List User) (sessions : List Session) : State where
  db := { users, sessions, loginAttempts := [] }
  history := []

end State

/-- A failure window: it is opened by a failure, and no success came since. -/
structure Window where
  startedAt : Int
  failures : Nat
  lastFailedAt : Int
  deriving DecidableEq

def Verification.isOf (username sourceIp : String) (verification : Verification) : Bool :=
  verification.username = username && verification.sourceIp = sourceIp

/-- The window after another failure. -/
def nextWindow (window : Option Window) (now : Int) : Window :=
  match window.filter fun window => now - window.startedAt ≤ loginFailureWindowMs with
  | some window => { window with failures := window.failures + 1, lastFailedAt := now }
  | none => { startedAt := now, failures := 1, lastFailedAt := now }

/-- The failure window that the verifications, latest first, leave for a user name and address. -/
def window (username sourceIp : String) : List Verification → Option Window
  | [] => none
  | verification :: earlier =>
    if verification.isOf username sourceIp then
      if verification.succeeded then none
      else some (nextWindow (window username sourceIp earlier) verification.decidedAt)
    else window username sourceIp earlier

/-- When the lock ends that the window calls for. -/
def Window.lockedUntil (window : Window) : Option Int :=
  if loginFailureLimit ≤ window.failures then
    some (window.lastFailedAt + backoffMs window.failures)
  else none

/-- Once the limit of failures is reached in a window, a call inside the lock period is refused
before its password is verified. -/
def Throttled (verifyPassword : String → String → Bool) (s : State) : Prop :=
  ∀ (call : Call) (w : Window) (lockedUntil : Int),
    window call.username call.source s.history = some w → w.lockedUntil = some lockedUntil →
    call.startedAt < lockedUntil →
    (∀ sessionId csrfToken, login verifyPassword call sessionId csrfToken s.db
      = ⟨.error .authRateLimited, s.db, none⟩) ∧
    ∀ sessionId, reauthenticateSession verifyPassword call (some sessionId) s.db
      = ⟨.error .authRateLimited, s.db, none⟩

/-- The row of failures that a window calls for. -/
def Window.IsCountedBy (window : Window) (attempt : LoginAttempt) : Prop :=
  attempt.failedCount = window.failures ∧ attempt.windowStartedAt = window.startedAt ∧
    attempt.lockedUntil = window.lockedUntil

def CountedAs (attempt : Option LoginAttempt) : Option Window → Prop
  | none => attempt = none
  | some window => ∃ row, attempt = some row ∧ window.IsCountedBy row

/-- The metadata counts exactly the failures of the current windows. -/
def Counted (s : State) : Prop :=
  ∀ username sourceIp, CountedAs (findAttempt s.db username sourceIp) (window username sourceIp s.history)

section Windows
variable {username sourceIp : String} {verification : Verification} {earlier : List Verification}

lemma window_cons_failed (hof : verification.isOf username sourceIp)
    (hfail : verification.succeeded = false) : window username sourceIp (verification :: earlier)
      = some (nextWindow (window username sourceIp earlier) verification.decidedAt) := by
  rw [window, if_pos hof, hfail, if_neg Bool.false_ne_true]

lemma window_cons_succeeded (hof : verification.isOf username sourceIp) (hsucc : verification.succeeded) :
    window username sourceIp (verification :: earlier) = none := by
  rw [window, if_pos hof, if_pos hsucc]

lemma window_cons_other (hof : ¬ verification.isOf username sourceIp) :
    window username sourceIp (verification :: earlier) = window username sourceIp earlier := by
  rw [window, if_neg hof]

end Windows

section Rows
variable {db : Db} {username sourceIp username' sourceIp' : String}
  {f : LoginAttempt → LoginAttempt}

lemma isAttemptOf_iff {attempt : LoginAttempt} : isAttemptOf username sourceIp attempt ↔
      attempt.username = username ∧ attempt.sourceIp = sourceIp := by
  simp [isAttemptOf]

lemma Verification.isOf_iff {verification : Verification} : verification.isOf username sourceIp ↔
      verification.username = username ∧ verification.sourceIp = sourceIp := by
  simp [Verification.isOf]

lemma findAttempt_clear_self (db : Db) (username sourceIp : String) :
    findAttempt (clearLoginFailures db username sourceIp) username sourceIp = none := by
  refine find?_eq_none.mpr fun attempt hmem => ?_
  have h := (mem_filter.mp hmem).2
  simpa using h

lemma findAttempt_clear_other (db : Db) (hne : ¬ (username' = username ∧ sourceIp' = sourceIp)) :
    findAttempt (clearLoginFailures db username sourceIp) username' sourceIp'
      = findAttempt db username' sourceIp' := by
  refine (find?_filter).trans ?_
  refine congrArg (fun p => db.loginAttempts.find? p) (funext fun attempt => ?_)
  cases h : isAttemptOf username' sourceIp' attempt with
  | false => simp
  | true =>
    obtain ⟨rfl, rfl⟩ := isAttemptOf_iff.mp h
    have hother : isAttemptOf username sourceIp attempt = false := by
      rw [← not_eq_true, isAttemptOf_iff]
      exact hne
    simp [hother]

/-- A change that keeps the keys of the rows shows in the first row that it is made to. -/
lemma find?_modifyFirst_self {p : LoginAttempt → Bool}
    (hf : ∀ attempt, p (f attempt) = p attempt) (attempts : List LoginAttempt) :
    (modifyFirst p f attempts).find? p = (attempts.find? p).map f := by
  induction attempts with
  | nil => rfl
  | cons attempt attempts ih =>
    unfold modifyFirst
    cases h : p attempt with
    | true => simp [hf, h]
    | false => simp [h, ih]

lemma find?_modifyFirst_other {p q : LoginAttempt → Bool} (hf : ∀ attempt, p attempt → q (f attempt) = false)
    (hpq : ∀ attempt, p attempt → q attempt = false) (attempts : List LoginAttempt) :
    (modifyFirst p f attempts).find? q = attempts.find? q := by
  induction attempts with
  | nil => rfl
  | cons attempt attempts ih =>
    unfold modifyFirst
    cases h : p attempt with
    | true => simp [hf attempt h, hpq attempt h]
    | false => simp [find?_cons, ih]

/-- The row that a failure is counted in. -/
def countedAttempt (db : Db) (username sourceIp : String) (now : Int) : LoginAttempt :=
  ((findAttempt db username sourceIp).filter fun attempt =>
    now - attempt.windowStartedAt ≤ loginFailureWindowMs).getD (newAttempt username sourceIp now)

lemma isAttemptOf_fail (now : Int) (attempt : LoginAttempt) :
    isAttemptOf username sourceIp (attempt.fail now) = isAttemptOf username sourceIp attempt :=
  rfl

lemma findAttempt_append_new (now : Int) : ((clearLoginFailures db username sourceIp).loginAttempts ++
      [newAttempt username sourceIp now]).find? (isAttemptOf username sourceIp)
      = some (newAttempt username sourceIp now) := by
  have hnew : isAttemptOf username sourceIp (newAttempt username sourceIp now) = true :=
    isAttemptOf_iff.mpr ⟨rfl, rfl⟩
  have hnone := findAttempt_clear_self db username sourceIp
  unfold findAttempt at hnone
  rw [find?_append, hnone, Option.none_or, find?_cons_of_pos hnew]

lemma findAttempt_record_self (now : Int) :
    findAttempt (recordFailedLogin db username sourceIp now) username sourceIp
      = some ((countedAttempt db username sourceIp now).fail now) := by
  unfold findAttempt recordFailedLogin countedAttempt
  rw [find?_modifyFirst_self (isAttemptOf_fail now)]
  cases hfind : findAttempt db username sourceIp with
  | none =>
    rw [if_pos (show Option.all _ none = true from rfl), findAttempt_append_new]
    rfl
  | some attempt =>
    by_cases hold : loginFailureWindowMs < now - attempt.windowStartedAt
    · rw [if_pos (by simpa using hold), findAttempt_append_new]
      simp [Option.filter, Int.not_le.mpr hold]
    rw [if_neg (by simpa using hold)]
    unfold findAttempt at hfind
    rw [hfind]
    simp [Option.filter, Int.not_lt.mp hold]

lemma findAttempt_record_other (now : Int) (hne : ¬ (username' = username ∧ sourceIp' = sourceIp)) :
    findAttempt (recordFailedLogin db username sourceIp now) username' sourceIp'
      = findAttempt db username' sourceIp' := by
  have hother : ∀ attempt, isAttemptOf username sourceIp attempt = true →
      isAttemptOf username' sourceIp' attempt = false := by
    intro attempt h
    obtain ⟨rfl, rfl⟩ := isAttemptOf_iff.mp h
    rw [← not_eq_true, isAttemptOf_iff]
    exact fun ⟨huser, hsrc⟩ => hne ⟨huser.symm, hsrc.symm⟩
  unfold findAttempt recordFailedLogin
  rw [find?_modifyFirst_other (p := isAttemptOf username sourceIp)
    (fun attempt h => hother (attempt.fail now) h) hother]
  split
  · have hclear := findAttempt_clear_other db hne
    unfold findAttempt at hclear
    have hnew := hother (newAttempt username sourceIp now) (isAttemptOf_iff.mpr ⟨rfl, rfl⟩)
    rw [find?_append, hclear, find?_cons_of_neg (by rw [hnew]; exact false_ne_true),
      find?_nil, Option.or_none]
  · rfl

end Rows

section Counting
variable {verifyPassword : String → String → Bool} {s : State} {call : Call} {db : Db}
  {sessionId : String}

/-- The row of failures keeps to the window. -/
lemma counted_fail {window : Option Window} {attempt : Option LoginAttempt} {new : LoginAttempt}
    {now : Int} (hnew : new.failedCount = 0 ∧ new.windowStartedAt = now ∧ new.lockedUntil = none)
    (h : CountedAs attempt window) : (nextWindow window now).IsCountedBy
      (((attempt.filter fun row => now - row.windowStartedAt ≤ loginFailureWindowMs).getD new).fail now) := by
  have hopn : (Window.mk now 1 now).IsCountedBy (new.fail now) := by
    obtain ⟨hcount, hstrt, hlck⟩ := hnew
    refine ⟨?_, hstrt, ?_⟩
    · simp [LoginAttempt.fail, hcount]
    · simp [LoginAttempt.fail, Window.lockedUntil, hcount, hlck, loginFailureLimit]
  cases window with
  | none =>
    subst h
    exact hopn
  | some window =>
    obtain ⟨row, rfl, hcount, hstrt, hlck⟩ := h
    unfold nextWindow
    by_cases hwin : now - window.startedAt ≤ loginFailureWindowMs
    · have hrow : now - row.windowStartedAt ≤ loginFailureWindowMs := by rwa [hstrt]
      simp only [Option.filter, hwin, hrow, decide_true, if_true, Option.getD_some]
      refine ⟨congrArg (· + 1) hcount, hstrt, ?_⟩
      simp only [LoginAttempt.fail, Window.lockedUntil, hcount]
      split
      · rfl
      · rename_i hlimit
        rw [hlck, Window.lockedUntil, if_neg (by omega)]
    · have hrow : ¬ now - row.windowStartedAt ≤ loginFailureWindowMs := by rwa [hstrt]
      simp only [Option.filter, hwin, hrow, decide_false, false_eq_true, if_false, Option.getD_none]
      exact hopn

/-- A failure that is counted. -/
lemma Counted.fail (h : Counted s) (call : Call) :
    Counted ⟨recordFailedLogin s.db call.username call.source call.decidedAt,
      ⟨call.username, call.source, call.decidedAt, false⟩ :: s.history⟩ := by
  intro username sourceIp
  by_cases hof : username = call.username ∧ sourceIp = call.source
  · obtain ⟨rfl, rfl⟩ := hof
    have hself : Verification.isOf call.username call.source
        ⟨call.username, call.source, call.decidedAt, false⟩ = true :=
      Verification.isOf_iff.mpr ⟨rfl, rfl⟩
    rw [window_cons_failed hself rfl, findAttempt_record_self]
    exact ⟨_, rfl, counted_fail ⟨rfl, rfl, rfl⟩ (h call.username call.source)⟩
  · rw [findAttempt_record_other call.decidedAt hof, window_cons_other]
    · exact h username sourceIp
    · rw [Verification.isOf_iff]
      exact fun ⟨huser, hsrc⟩ => hof ⟨huser.symm, hsrc.symm⟩

/-- A success clears what was counted. -/
lemma Counted.clear (h : Counted s) (call : Call)
    (hdb : db.loginAttempts = (clearLoginFailures s.db call.username call.source).loginAttempts) :
    Counted ⟨db, ⟨call.username, call.source, call.decidedAt, true⟩ :: s.history⟩ := by
  intro username sourceIp
  have hfind : findAttempt db username sourceIp
      = findAttempt (clearLoginFailures s.db call.username call.source) username sourceIp := by
    unfold findAttempt
    rw [hdb]
  rw [hfind]
  by_cases hof : username = call.username ∧ sourceIp = call.source
  · obtain ⟨rfl, rfl⟩ := hof
    have hself : Verification.isOf call.username call.source
        ⟨call.username, call.source, call.decidedAt, true⟩ = true :=
      Verification.isOf_iff.mpr ⟨rfl, rfl⟩
    rw [window_cons_succeeded hself rfl, findAttempt_clear_self]
    rfl
  · rw [findAttempt_clear_other s.db hof, window_cons_other]
    · exact h username sourceIp
    · rw [Verification.isOf_iff]
      exact fun ⟨huser, hsrc⟩ => hof ⟨huser.symm, hsrc.symm⟩

lemma login_of_locked {call : Call} {csrfToken : String}
    (h : isLocked db call.username call.source call.startedAt) :
    login verifyPassword call sessionId csrfToken db = ⟨.error .authRateLimited, db, none⟩ := by
  unfold login mutate
  simp [h]

lemma reauthenticateSession_of_locked {call : Call} (h : isLocked db call.username call.source call.startedAt) :
    reauthenticateSession verifyPassword call (some sessionId) db = ⟨.error .authRateLimited, db, none⟩ := by
  unfold reauthenticateSession mutate
  simp [h]

lemma Counted.login (h : Counted s) (call : Call) (sessionId csrfToken : String) :
    Counted (s.record call (LoginThrottle.login verifyPassword call sessionId csrfToken s.db)) := by
  by_cases hlck : isLocked s.db call.username call.source call.startedAt = true
  · rw [login_of_locked hlck]
    exact h
  unfold LoginThrottle.login mutate
  dsimp only
  rw [if_neg hlck]
  cases loginUser verifyPassword s.db call with
  | none => exact h.fail call
  | some user => exact h.clear call rfl

/-- No wrong password is verified for a session. -/
def Label.Confirmed (verifyPassword : String → String → Bool) (db : Db) : Label → Prop
  | .reauthenticate call (some sessionId) =>
    isLocked db call.username call.source call.startedAt = false →
    ∀ session, db.sessions.find? (fun session => session.sessionId = sessionId) = some session →
      isSessionLive session call.checkedAt = true → ∀ user, sessionUser db call session = some user →
          verifyPassword call.password user.passwordHash = true
  | _ => True

lemma Counted.reauthenticate (h : Counted s) (call : Call) (sessionId : Option String)
    (hcfm : (Label.reauthenticate call sessionId).Confirmed verifyPassword s.db) :
    Counted (s.record call (reauthenticateSession verifyPassword call sessionId s.db)) := by
  cases sessionId with
  | none => exact h
  | some sessionId =>
    by_cases hlck : isLocked s.db call.username call.source call.startedAt = true
    · rw [reauthenticateSession_of_locked hlck]
      exact h
    unfold reauthenticateSession mutate
    dsimp only
    rw [if_neg hlck]
    cases hsess : (s.db.sessions.find? fun session => session.sessionId = sessionId).filter
        (isSessionLive · call.checkedAt) with
    | none => exact h
    | some session =>
      obtain ⟨hfind, hlive⟩ := Option.filter_eq_some_iff.mp hsess
      dsimp only
      cases huser : sessionUser s.db call session with
      | none => exact h
      | some user =>
        dsimp only
        rw [if_pos (hcfm (not_eq_true _ ▸ hlck) session hfind hlive user huser)]
        exact h.clear call rfl

lemma Counted.step (h : Counted s) {label : Label}
    (hcfm : label.Confirmed verifyPassword s.db) : Counted (s.step verifyPassword label) := by
  cases label with
  | login call sessionId csrfToken => exact h.login call sessionId csrfToken
  | reauthenticate call sessionId => exact h.reauthenticate call sessionId hcfm
  | mutate users sessions => exact h

/-- A window whose lock has not ended refuses what comes next. -/
lemma Counted.throttled (h : Counted s) : Throttled verifyPassword s := by
  intro call w lockedUntil hwind hlck hbef
  have hrow := h call.username call.source
  rw [hwind] at hrow
  obtain ⟨row, hrow, -, -, hrowL⟩ := hrow
  have hisL : isLocked s.db call.username call.source call.startedAt = true := by
    unfold isLocked
    rw [hrow, Option.bind_some, hrowL, hlck]
    exact decide_eq_true hbef
  exact ⟨fun _ _ => login_of_locked hisL, fun _ => reauthenticateSession_of_locked hisL⟩

end Counting

/-- Every step of the run meets a condition on the metadata before it. -/
def State.Throughout (verifyPassword : String → String → Bool) (condition : Db → Label → Prop) :
    State → List Label → Prop
  | _, [] => True
  | s, label :: labels =>
    condition s.db label ∧ (s.step verifyPassword label).Throughout verifyPassword condition labels

section Runs
variable {verifyPassword : String → String → Bool} {s : State} {labels : List Label}

lemma Counted.run (h : Counted s)
    (hcfm : s.Throughout verifyPassword (fun db label => label.Confirmed verifyPassword db) labels) :
    Counted (s.run verifyPassword labels) := by
  induction labels generalizing s with
  | nil => exact h
  | cons label labels ih =>
    obtain ⟨hlabel, hcfm⟩ := hcfm
    exact ih (h.step hlabel) hcfm

lemma counted_start (users : List User) (sessions : List Session) : Counted (.start users sessions) :=
  fun _ _ => rfl

end Runs

/-- Where no wrong password is verified for a session, every entry point is throttled: after the
limit of failures in one window, a call inside the lock period is refused before its password is
verified. -/
theorem entry_points_throttled (verifyPassword : String → String → Bool) (users : List User)
    (sessions : List Session) (labels : List Label)
    (hconfirmed : (State.start users sessions).Throughout verifyPassword
      (fun db label => label.Confirmed verifyPassword db) labels) :
    Throttled verifyPassword ((State.start users sessions).run verifyPassword labels) :=
  ((counted_start users sessions).run hconfirmed).throttled

def sampleUser : User := ⟨"usr_1", "owner", "correct", true, false, none⟩

def sampleSession : Session := createSession "usr_1" "sess_1" "csrf_1" 0

/-- A wrong password every second. -/
def sampleCall (second : Nat) : Call where
  username := "owner"
  password := "wrong"
  sourceIp := some "203.0.113.10"
  startedAt := 1000 * second
  checkedAt := 1000 * second
  decidedAt := 1000 * second

def samePassword (password passwordHash : String) : Bool := password = passwordHash

/-- Five wrong passwords given for a session are not counted: the sixth is verified as well. -/
theorem entry_points_not_throttled :
    ¬ ∀ (verifyPassword : String → String → Bool) (users : List User) (sessions : List Session)
      (labels : List Label), Throttled verifyPassword ((State.start users sessions).run verifyPassword labels) := by
  intro h
  have hthr := h samePassword [sampleUser] [sampleSession]
    ((range 5).map fun second => .reauthenticate (sampleCall second) (some "sess_1"))
    (sampleCall 5) ⟨0, 5, 4000⟩ 64000 (by decide +kernel) (by decide +kernel) (by decide +kernel)
  have hverd := congrArg Ended.verdict (hthr.2 "sess_1")
  exact absurd hverd (by decide +kernel)

/-- Five wrong passwords given to `login` lock both entry points. -/
theorem entry_points_throttled_sample :
    Throttled samePassword ((State.start [sampleUser] [sampleSession]).run samePassword
      ((List.range 5).map fun second => .login (sampleCall second) "sess_2" "csrf_2")) :=
  entry_points_throttled samePassword [sampleUser] [sampleSession] _
    ⟨trivial, trivial, trivial, trivial, trivial, trivial⟩

/-- Every lock is due to a failure with its user name and address, an hour before its end at most. -/
def LocksDue (s : State) : Prop :=
  ∀ attempt ∈ s.db.loginAttempts, ∀ lockedUntil ∈ attempt.lockedUntil, ∃ failure ∈ s.history,
    failure.isOf attempt.username attempt.sourceIp ∧ failure.succeeded = false ∧
      lockedUntil ≤ failure.decidedAt + loginBackoffMaxMs

section Due
variable {verifyPassword : String → String → Bool} {s : State} {db : Db}

lemma mem_modifyFirst {p : LoginAttempt → Bool} {f : LoginAttempt → LoginAttempt} {attempt : LoginAttempt}
    {attempts : List LoginAttempt} (h : attempt ∈ modifyFirst p f attempts) :
    attempt ∈ attempts ∨ ∃ old ∈ attempts, p old ∧ attempt = f old := by
  fun_induction modifyFirst p f attempts with grind

lemma LocksDue.cons (h : LocksDue s) (hrows : db.loginAttempts ⊆ s.db.loginAttempts)
    (verification : Verification) : LocksDue ⟨db, verification :: s.history⟩ := by
  intro attempt hmem lockedUntil hlck
  obtain ⟨failure, hin, hdue⟩ := h attempt (hrows hmem) lockedUntil hlck
  exact ⟨failure, mem_cons_of_mem _ hin, hdue⟩

/-- The failure is counted in a row that is there, or in a new one, which has no lock. -/
lemma LocksDue.fail (h : LocksDue s) (call : Call) :
    LocksDue ⟨recordFailedLogin s.db call.username call.source call.decidedAt,
      ⟨call.username, call.source, call.decidedAt, false⟩ :: s.history⟩ := by
  have hfail : ∀ db, LocksDue ⟨db, s.history⟩ → LocksDue ⟨⟨db.users, db.sessions, modifyFirst
      (isAttemptOf call.username call.source) (LoginAttempt.fail · call.decidedAt) db.loginAttempts⟩,
      ⟨call.username, call.source, call.decidedAt, false⟩ :: s.history⟩ := by
    intro db hdb attempt hmem lockedUntil hlck
    have hkept := hdb.cons (List.Subset.refl _) ⟨call.username, call.source, call.decidedAt, false⟩
    rcases mem_modifyFirst hmem with hmem | ⟨old, hold, hof, rfl⟩
    · exact hkept attempt hmem lockedUntil hlck
    by_cases hlimit : loginFailureLimit ≤ old.failedCount + 1
    · cases (if_pos hlimit).symm.trans hlck
      exact ⟨_, mem_cons_self, Verification.isOf_iff.mpr ((isAttemptOf_iff.mp hof).imp .symm .symm),
        rfl, Int.add_le_add_left (Int.min_le_right _ _) _⟩
    · exact hkept old hold lockedUntil ((if_neg hlimit).symm.trans hlck)
  refine hfail _ ?_
  split
  · intro old hmem
    rcases mem_append.mp hmem with hmem | hmem
    · exact h old (mem_of_mem_filter hmem)
    · cases mem_singleton.mp hmem
      nofun
  · exact h

lemma LocksDue.step (h : LocksDue s) (label : Label) : LocksDue (s.step verifyPassword label) := by
  cases label with
  | login call sessionId csrfToken =>
    unfold State.step LoginThrottle.login mutate
    dsimp only
    split_ifs
    · exact h
    cases loginUser verifyPassword s.db call with
    | none => exact h.fail call
    | some user => exact h.cons (fun _ hmem => mem_of_mem_filter hmem) _
  | reauthenticate call sessionId =>
    cases sessionId with
    | none => exact h
    | some sessionId =>
      unfold State.step reauthenticateSession mutate
      dsimp only
      split_ifs
      · exact h
      cases (s.db.sessions.find? fun session => session.sessionId = sessionId).filter
          (isSessionLive · call.checkedAt) with
      | none => exact h
      | some session =>
        dsimp only
        cases sessionUser s.db call session with
        | none => exact h
        | some user =>
          dsimp only
          split_ifs
          · exact h.cons (fun _ hmem => mem_of_mem_filter hmem) _
          · exact h.cons (List.Subset.refl _) _
  | mutate users sessions => exact h

end Due

/-- Nobody is locked out but for failures of their own, and by each for an hour at most. -/
theorem locks_due (verifyPassword : String → String → Bool) (users : List User)
    (sessions : List Session) (labels : List Label) :
    LocksDue ((State.start users sessions).run verifyPassword labels) :=
  foldlRecOn labels _ nofun fun _ h label _ => h.step label

end LoginThrottle
