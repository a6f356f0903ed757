import Obts.EnrolmentRuns

/-!
# Disabling an account

A disabled user has no session, approved connection, device or token left. Requests that were
authenticated before the user was disabled may still reach their mutations: logging in, creating
users and completing a connection look at the user again, or at rows that disabling withdrew, but
an approval does not.
-/
namespace Enrolment

open List
open LoginThrottle (createSession isLocked isSessionLive loginUser reauthenticateSession recordFailedLogin
    sampleUser setUser)
open Option (eq_some_of_isSome isNone_iff_eq_none isNone_some ite_none_right_eq_some map_eq_some_iff some_ne_none)
open LoginThrottle (User Session Call)

namespace Db
variable (db : Db) (userId : String)

def sessionIds : List String :=
  (db.accounts.sessions.filter fun session => session.userId = userId).map Session.sessionId

def liveSessionIds : List String :=
  (db.accounts.sessions.filter fun session =>
    session.userId = userId && session.revokedAt.isNone).map Session.sessionId

/-- The approved connections that were approved by the user. -/
def approvedIds : List String :=
  (db.connections.filter fun connection =>
    connection.approvedUserId = some userId && connection.status = .approved).map
      Connection.connectionId

def deviceIds : List String :=
  (db.devices.filter fun device => device.userId = userId).map Device.deviceId

def liveDeviceIds : List String :=
  (db.devices.filter fun device => device.userId = userId && device.revokedAt.isNone).map
    Device.deviceId

def liveTokenIds : List String :=
  (db.tokens.filter fun token => token.userId = userId && token.revokedAt.isNone).map Token.tokenId

end Db

/-- Nothing is created for the user, and nothing of theirs that was revoked comes back. -/
structure GainsNothing (userId : String) (db db' : Db) : Prop where
  sessions : (db'.sessionIds userId).Sublist (db.sessionIds userId)
  liveSessions : (db'.liveSessionIds userId).Sublist (db.liveSessionIds userId)
  approved : (db'.approvedIds userId).Sublist (db.approvedIds userId)
  devices : (db'.deviceIds userId).Sublist (db.deviceIds userId)
  liveDevices : (db'.liveDeviceIds userId).Sublist (db.liveDeviceIds userId)
  liveTokens : (db'.liveTokenIds userId).Sublist (db.liveTokenIds userId)

/-- The user holds nothing that is good for a request. -/
structure NoCredential (userId : String) (db : Db) : Prop where
  sessions : db.liveSessionIds userId = []
  approved : db.approvedIds userId = []
  devices : db.liveDeviceIds userId = []
  tokens : db.liveTokenIds userId = []

/-- The user is there and disabled. -/
def IsDisabled (userId : String) (db : Db) : Prop :=
  userId ∈ db.accounts.users.map User.userId ∧
    ∀ user ∈ db.accounts.users, user.userId = userId → user.disabled = true

section Rows
variable {α : Type} {key : α → String} {p : α → Bool}

/-- A change of rows that brings none under the condition, and keeps the identifiers. -/
lemma filter_map_sublist {f : α → α} (rows : List α) (h : ∀ row ∈ rows, p (f row) → p row ∧ key (f row) = key row) :
    (((rows.map f).filter p).map key).Sublist ((rows.filter p).map key) := by
  induction rows with
  | nil => exact List.Sublist.refl []
  | cons row rows ih =>
    have ih := ih fun row hmem => h row (mem_cons_of_mem _ hmem)
    rw [map_cons, filter_cons, filter_cons]
    by_cases hnew : p (f row) = true
    · obtain ⟨hold, hkey⟩ := h row mem_cons_self hnew
      rw [if_pos hnew, if_pos hold, map_cons, map_cons, hkey]
      exact ih.cons_cons (key row)
    rw [if_neg hnew]
    split
    · exact ih.cons (key row)
    · exact ih

/-- A new row that does not meet the condition. -/
lemma filter_append_sublist (rows : List α) {row : α} (h : p row = false) :
    (((rows ++ [row]).filter p).map key).Sublist ((rows.filter p).map key) := by
  rw [filter_append, filter_cons_of_neg (by rw [h]; exact Bool.false_ne_true),
    filter_nil, append_nil]

end Rows

variable {now : Int} {connectionId other : String} {approval : Approval}

section Gains
variable {crypto : Crypto} {past : List Enrolled}
  {userId targetUserId deviceToken rootCommit : String} {db db' db'' : Db} {mode : OnboardingMode}
  {enrolled : Enrolled} {disabled : Bool} {s : State}

lemma GainsNothing.refl (userId : String) (db : Db) : GainsNothing userId db db :=
  ⟨.refl _, .refl _, .refl _, .refl _, .refl _, .refl _⟩

/-- Rows of other kinds do not matter. -/
lemma GainsNothing.of_eq (hsess : db'.accounts.sessions = db.accounts.sessions)
    (hconns : db'.connections = db.connections) (hdevs : db'.devices = db.devices)
    (htoks : db'.tokens = db.tokens) : GainsNothing userId db db' := by
  refine ⟨?_, ?_, ?_, ?_, ?_, ?_⟩
  · rw [Db.sessionIds, hsess]; exact .refl _
  · rw [Db.liveSessionIds, hsess]; exact .refl _
  · rw [Db.approvedIds, hconns]; exact .refl _
  · rw [Db.deviceIds, hdevs]; exact .refl _
  · rw [Db.liveDeviceIds, hdevs]; exact .refl _
  · rw [Db.liveTokenIds, htoks]; exact .refl _

lemma GainsNothing.trans (h : GainsNothing userId db db') (h' : GainsNothing userId db' db'') :
    GainsNothing userId db db'' :=
  ⟨h'.sessions.trans h.sessions, h'.liveSessions.trans h.liveSessions, h'.approved.trans h.approved,
    h'.devices.trans h.devices, h'.liveDevices.trans h.liveDevices,
    h'.liveTokens.trans h.liveTokens⟩

lemma NoCredential.gainsNothing (h : NoCredential userId db) (hgains : GainsNothing userId db db') :
    NoCredential userId db' :=
  ⟨sublist_nil.mp (h.sessions ▸ hgains.liveSessions), sublist_nil.mp (h.approved ▸ hgains.approved),
    sublist_nil.mp (h.devices ▸ hgains.liveDevices),
    sublist_nil.mp (h.tokens ▸ hgains.liveTokens)⟩

/-- Sessions that change keep their users, and none that was revoked comes back. -/
lemma GainsNothing.sessionRows {f : Session → Session}
    (hf : ∀ session ∈ db.accounts.sessions, (f session).userId = userId →
      session.userId = userId ∧ (f session).sessionId = session.sessionId ∧
        (session.revokedAt ≠ none → (f session).revokedAt ≠ none))
    (hsess : db'.accounts.sessions = db.accounts.sessions.map f)
    (hconns : db'.connections = db.connections) (hdevs : db'.devices = db.devices)
    (htoks : db'.tokens = db.tokens) : GainsNothing userId db db' := by
  have hsame : GainsNothing userId db
      { db' with accounts := { db'.accounts with sessions := db.accounts.sessions } } :=
    .of_eq rfl hconns hdevs htoks
  refine { hsame with sessions := ?_, liveSessions := ?_ }
  · rw [Db.sessionIds, hsess]
    refine filter_map_sublist _ fun session hmem hof => ?_
    rw [decide_eq_true_eq] at hof ⊢
    obtain ⟨huser, hid, -⟩ := hf session hmem hof
    exact ⟨huser, hid⟩
  · rw [Db.liveSessionIds, hsess]
    refine filter_map_sublist _ fun session hmem hof => ?_
    rw [Bool.and_eq_true, decide_eq_true_eq, isNone_iff_eq_none] at hof ⊢
    obtain ⟨huser, hid, hrvk⟩ := hf session hmem hof.1
    exact ⟨⟨huser, not_not.mp fun h => hrvk h hof.2⟩, hid⟩

/-- Connections that change keep their identifiers, and none is approved anew. -/
lemma GainsNothing.connectionRows {f : Connection → Connection}
    (hf : ∀ connection ∈ db.connections, (f connection).status = .approved →
      f connection = connection) (hsess : db'.accounts.sessions = db.accounts.sessions)
    (hconns : db'.connections = db.connections.map f) (hdevs : db'.devices = db.devices)
    (htoks : db'.tokens = db.tokens) : GainsNothing userId db db' := by
  have hsame : GainsNothing userId db { db' with connections := db.connections } :=
    .of_eq hsess rfl hdevs htoks
  refine { hsame with approved := ?_ }
  rw [Db.approvedIds, hconns]
  refine filter_map_sublist _ fun connection hmem hof => ?_
  have hstat : (f connection).status = .approved := by
    rw [Bool.and_eq_true, decide_eq_true_eq, decide_eq_true_eq] at hof
    exact hof.2
  rw [hf connection hmem hstat] at hof ⊢
  exact ⟨hof, rfl⟩

lemma eq_of_withdrawn {connection connection' : Connection}
    (h : Withdrawn connection connection') (hstat : connection'.status = .approved) : connection' = connection := by
  rcases h.same with hsame | ⟨-, hexp | hden⟩
  · exact hsame
  · rw [hexp] at hstat
    cases hstat
  · rw [hden] at hstat
    cases hstat

lemma GainsNothing.expire (userId : String) (now : Int) (db : Db) :
    GainsNothing userId db (expireConnections now db) :=
  .connectionRows (fun connection _ => eq_of_withdrawn (withdrawn_expire now connection))
    rfl rfl rfl rfl

lemma GainsNothing.refresh (userId : String) (now : Int) (connectionId : String) (db : Db) :
    GainsNothing userId db (db.setConnection connectionId (Connection.refresh now)) :=
  .connectionRows (f := fun connection =>
      if connection.connectionId = connectionId then connection.refresh now else connection)
    (fun connection _ => eq_of_withdrawn (withdrawn_setConnection (withdrawn_refresh now connection)))
    rfl rfl rfl rfl

/-- Users may change, but whoever is disabled stays so. -/
lemma IsDisabled.users (h : IsDisabled userId db) {f : User → User}
    (hf : ∀ user ∈ db.accounts.users, (f user).userId = user.userId ∧
      (user.userId = userId → user.disabled → (f user).disabled))
    (husers : db'.accounts.users = db.accounts.users.map f) : IsDisabled userId db' := by
  constructor
  · rw [husers, map_map]
    obtain ⟨user, hmem, hid⟩ := mem_map.mp h.1
    exact mem_map.mpr ⟨user, hmem, (hf user hmem).1.trans hid⟩
  intro user hmem hid
  rw [husers] at hmem
  obtain ⟨old, hold, rfl⟩ := mem_map.mp hmem
  have hid' : old.userId = userId := (hf old hold).1.symm.trans hid
  exact (hf old hold).2 hid' (h.2 old hold hid')

lemma IsDisabled.of_eq (h : IsDisabled userId db) (husers : db'.accounts.users = db.accounts.users) :
    IsDisabled userId db' := by
  rw [IsDisabled, husers]
  exact h

/-- `setUser` changes nothing but the last login. -/
lemma IsDisabled.login (h : IsDisabled userId db) {loggedIn : String} {at_ : Int}
    (husers : db'.accounts.users = db.accounts.users.map fun user =>
      if user.userId = loggedIn then { user with lastLoginAt := some at_ } else user) :
    IsDisabled userId db' := by
  refine h.users (fun user _ => ?_) husers
  split
  · exact ⟨rfl, fun _ hdis => hdis⟩
  · exact ⟨rfl, fun _ hdis => hdis⟩

lemma recordFailedLogin_rows (accounts : LoginThrottle.Db) (username sourceIp : String)
    (now : Int) : (recordFailedLogin accounts username sourceIp now).users = accounts.users ∧
      (recordFailedLogin accounts username sourceIp now).sessions = accounts.sessions := by
  unfold recordFailedLogin
  split
  · exact ⟨rfl, rfl⟩
  · exact ⟨rfl, rfl⟩

/-- Logging in makes a session for an enabled user, or no session. -/
lemma login_rows (verifyPassword : String → String → Bool) (call : Call)
    (sessionId csrfToken : String) (accounts : LoginThrottle.Db) :
    let accounts' := (LoginThrottle.login verifyPassword call sessionId csrfToken accounts).db
    (accounts'.users = accounts.users ∧ accounts'.sessions = accounts.sessions) ∨
      ∃ user ∈ accounts.users, user.disabled = false ∧
        (accounts'.users = accounts.users.map fun row =>
          if row.userId = user.userId then { row with lastLoginAt := some call.decidedAt } else row) ∧
        accounts'.sessions = accounts.sessions ++
          [createSession user.userId sessionId csrfToken call.decidedAt] := by
  by_cases hlck : isLocked accounts call.username call.source call.startedAt = true
  · left
    simp [LoginThrottle.login, LoginThrottle.mutate, hlck]
  cases hlogin : loginUser verifyPassword accounts call with
  | none =>
    left
    simp only [LoginThrottle.login, LoginThrottle.mutate, hlck, hlogin, Bool.false_eq_true, if_false]
    exact recordFailedLogin_rows accounts call.username call.source call.decidedAt
  | some user =>
    right
    obtain ⟨hfind, halw⟩ := Option.filter_eq_some_iff.mp hlogin
    rw [Bool.and_eq_true, Bool.not_eq_true'] at halw
    refine ⟨user, mem_of_find?_eq_some hfind, halw.1, ?_⟩
    simp only [LoginThrottle.login, LoginThrottle.mutate, hlck, hlogin, Bool.false_eq_true, if_false]
    exact ⟨rfl, rfl⟩

/-- Confirming a session extends it if it is live, or changes no session. -/
lemma reauthenticateSession_rows (verifyPassword : String → String → Bool) (call : Call)
    (sessionId : Option String) (accounts : LoginThrottle.Db) : let accounts' :=
      (reauthenticateSession verifyPassword call sessionId accounts).db
    (accounts'.users = accounts.users ∧ accounts'.sessions = accounts.sessions) ∨
      ∃ user session session', session ∈ accounts.sessions ∧ session.revokedAt = none ∧
        session'.userId = session.userId ∧ session'.sessionId = session.sessionId ∧
        (accounts'.users = accounts.users.map fun row =>
          if row.userId = user then { row with lastLoginAt := some call.decidedAt } else row) ∧
        accounts'.sessions = accounts.sessions.map fun row =>
          if row.sessionId = session.sessionId then session' else row := by
  cases sessionId with
  | none => exact .inl ⟨rfl, rfl⟩
  | some sessionId =>
    by_cases hlck :
        isLocked accounts call.username call.source call.startedAt = true
    · left
      simp [reauthenticateSession, LoginThrottle.mutate, hlck]
    cases hsess : (accounts.sessions.find? fun session => session.sessionId = sessionId).filter
        (isSessionLive · call.checkedAt) with
    | none =>
      left
      simp [reauthenticateSession, LoginThrottle.mutate, hlck, hsess]
    | some session =>
      cases huser : LoginThrottle.sessionUser accounts call session with
      | none =>
        left
        simp [reauthenticateSession, LoginThrottle.mutate, hlck, hsess, huser]
      | some user =>
        by_cases hpass : verifyPassword call.password user.passwordHash = true
        case neg =>
          left
          simp [reauthenticateSession, LoginThrottle.mutate, hlck, hsess, huser, hpass]
        right
        obtain ⟨hfind, hlive⟩ := Option.filter_eq_some_iff.mp hsess
        simp only [isSessionLive, Bool.and_eq_true, isNone_iff_eq_none] at hlive
        refine ⟨user.userId, session, { session with
          lastSeenAt := call.decidedAt
          idleExpiresAt := call.checkedAt + LoginThrottle.sessionIdleTtlMs
          recentAuthAt := call.decidedAt }, mem_of_find?_eq_some hfind, hlive.1.1, rfl, rfl, ?_⟩
        simp only [reauthenticateSession, LoginThrottle.mutate, hlck, hsess,
          huser, hpass, Bool.false_eq_true, if_false, if_true]
        exact ⟨rfl, rfl⟩

/-- A completion enrols a device for the user who approved the connection. -/
lemma completeConnection_rows {secret vaultId deviceId tokenId : String}
    (h : completeConnection crypto now connectionId secret vaultId rootCommit mode deviceToken deviceId
      tokenId db = some (db', enrolled)) : (∃ row ∈ db.connections, row.status = .approved ∧
      row.approvedUserId = some enrolled.device.userId) ∧
    enrolled.token.userId = enrolled.device.userId ∧ db'.accounts = db.accounts ∧
    db'.devices = db.devices ++ [enrolled.device] ∧ db'.tokens = db.tokens ++ [enrolled.token] ∧
    ∃ f : Connection → Connection, db'.connections = db.connections.map f ∧
      ∀ connection, (f connection).status = .approved → f connection = connection := by
  unfold completeConnection at h
  split at h
  · cases h
  rename_i connection hconn
  split at h
  · cases h
  rename_i hguard
  rw [not_or, not_not] at hguard
  obtain ⟨row, hrow, -, rfl⟩ := authenticatedConnection_eq_some hconn
  rw [(refresh_of_approved hguard.1).1] at h hguard
  obtain ⟨⟨vault, vaults⟩, htgt, heq⟩ := map_eq_some_iff.mp h
  cases heq
  refine ⟨⟨row, hrow, hguard.1, (targetVault_eq_some htgt).2.1⟩, rfl, rfl, rfl, rfl, _, rfl, fun other hstat => ?_⟩
  split at hstat
  · cases hstat
  · rename_i hother
    exact if_neg hother

/-- Nothing is enrolled for a user who has no approved connection. -/
lemma GainsNothing.complete {secret vaultId deviceId tokenId : String} (hnone : db.approvedIds userId = [])
    (h : completeConnection crypto now connectionId secret vaultId rootCommit mode deviceToken deviceId
      tokenId db = some (db', enrolled)) : GainsNothing userId db db' := by
  obtain ⟨⟨row, hrow, hstat, happr⟩, htoken, hacc, hdevs, htoks, f, hconns, hf⟩ :=
    completeConnection_rows h
  have hother : enrolled.device.userId ≠ userId := by
    rintro rfl
    refine ne_nil_of_mem (mem_map_of_mem (mem_filter.mpr ⟨hrow, ?_⟩)) hnone
    rw [hstat, happr, decide_eq_true rfl, decide_eq_true rfl, Bool.and_self]
  have hrows : GainsNothing userId db
      { db' with devices := db.devices, tokens := db.tokens } :=
    .connectionRows (fun connection _ => hf connection) (congrArg LoginThrottle.Db.sessions hacc)
      hconns rfl rfl
  refine ⟨hrows.sessions, hrows.liveSessions, hrows.approved, ?_, ?_, ?_⟩
  · rw [Db.deviceIds, hdevs]
    exact filter_append_sublist _ (decide_eq_false hother)
  · rw [Db.liveDeviceIds, hdevs]
    refine filter_append_sublist _ ?_
    rw [decide_eq_false hother, Bool.false_and]
  · rw [Db.liveTokenIds, htoks]
    refine filter_append_sublist _ ?_
    rw [htoken, decide_eq_false hother, Bool.false_and]

lemma GainsNothing.revokeUserAuth (userId : String) (now : Int) (other : String) (db : Db) :
    GainsNothing userId db (revokeUserAuth now other db) := by
  have hsess : GainsNothing userId db { db with
      accounts := (Enrolment.revokeUserAuth now other db).accounts } := by
    refine .sessionRows (fun session _ hof => ?_) rfl rfl rfl rfl
    split at hof <;> split
    all_goals first | exact ⟨hof, rfl, fun _ => some_ne_none now⟩ | exact ⟨hof, rfl, fun h => h⟩
  refine ⟨hsess.sessions, hsess.liveSessions, hsess.approved, ?_, ?_, ?_⟩
  · refine filter_map_sublist _ fun device _ hof => ?_
    split at hof <;> split
    all_goals exact ⟨hof, rfl⟩
  · refine filter_map_sublist _ fun device _ hof => ?_
    split at hof
    · rw [isNone_some, Bool.and_false] at hof
      cases hof
    rename_i hkept
    rw [if_neg hkept]
    exact ⟨hof, rfl⟩
  · refine filter_map_sublist _ fun token _ hof => ?_
    split at hof
    · rw [isNone_some, Bool.and_false] at hof
      cases hof
    rename_i hkept
    rw [if_neg hkept]
    exact ⟨hof, rfl⟩

/-- What disabling or enabling a user does, once the request is allowed. -/
def withUserDisabled (now : Int) (targetUserId : String) (disabled : Bool) (db : Db) : Db :=
  let db := { db with accounts := setUser db.accounts targetUserId fun user =>
    { user with disabled } }
  if disabled then
    let db := Enrolment.revokeUserAuth now targetUserId db
    { db with connections := db.connections.map fun connection =>
      if connection.approvedUserId = some targetUserId ∧ connection.status = .approved then
        { connection with status := .denied }
      else connection }
  else db

lemma setUserDisabled_eq_some {actorUserId : String}
    (h : setUserDisabled now actorUserId targetUserId disabled db = some db') :
    targetUserId ∈ db.accounts.users.map User.userId ∧ db' = withUserDisabled now targetUserId disabled db := by
  unfold setUserDisabled at h
  split at h
  · rename_i actor target hactor htgt
    have hknown : targetUserId ∈ db.accounts.users.map User.userId := by
      have hid : target.userId = targetUserId := by simpa using List.find?_some htgt
      exact hid ▸ mem_map_of_mem (mem_of_find?_eq_some htgt)
    split at h
    · cases h
    split at h
    · cases h
    unfold withUserDisabled
    split at h
    · rename_i hdis
      rw [if_pos hdis]
      exact ⟨hknown, (Option.some.inj h).symm⟩
    rename_i hdis
    rw [if_neg hdis]
    exact ⟨hknown, (Option.some.inj h).symm⟩
  · cases h

lemma GainsNothing.setUserDisabled (userId : String) (now : Int) (targetUserId : String)
    (disabled : Bool) (db : Db) : GainsNothing userId db (withUserDisabled now targetUserId disabled db) := by
  cases disabled with
  | false => exact .of_eq rfl rfl rfl rfl
  | true =>
    let set : Db := { db with accounts := setUser db.accounts targetUserId fun user =>
      { user with disabled := true } }
    have hset : GainsNothing userId db set := .of_eq rfl rfl rfl rfl
    refine (hset.trans (.revokeUserAuth userId now targetUserId set)).trans ?_
    refine .connectionRows (fun connection _ hstat => ?_) rfl rfl rfl rfl
    split at hstat
    · cases hstat
    · rename_i hkept
      exact if_neg hkept

/-- Others stay disabled, and a user who is disabled stays so until they are enabled again. -/
lemma IsDisabled.setUserDisabled (h : IsDisabled userId db) (hkept : targetUserId = userId → disabled) :
    IsDisabled userId (withUserDisabled now targetUserId disabled db) := by
  refine h.users (f := fun user =>
    if user.userId = targetUserId then { user with disabled } else user) (fun user _ => ?_) ?_
  · split
    · rename_i htgt
      exact ⟨rfl, fun hid _ => hkept (htgt.symm.trans hid)⟩
    · exact ⟨rfl, fun _ hdis => hdis⟩
  · cases disabled with
    | false | true => rfl

/-- Whoever is disabled is left with nothing. -/
lemma withUserDisabled_locks (hknown : userId ∈ db.accounts.users.map User.userId) :
    IsDisabled userId (withUserDisabled now userId true db) ∧
      NoCredential userId (withUserDisabled now userId true db) := by
  refine ⟨⟨?_, fun user hmem hid => ?_⟩, ?_, ?_, ?_, ?_⟩
  · obtain ⟨user, hmem, hid⟩ := mem_map.mp hknown
    refine mem_map.mpr ⟨_, mem_map_of_mem hmem, ?_⟩
    rw [if_pos hid]
    exact hid
  · obtain ⟨old, -, rfl⟩ := mem_map.mp hmem
    split at hid
    · rename_i hold
      rw [if_pos hold]
    · rename_i hold
      exact absurd hid hold
  all_goals
    refine map_eq_nil_iff.mpr (filter_eq_nil_iff.mpr fun row hmem hof => ?_)
    obtain ⟨old, -, rfl⟩ := mem_map.mp hmem
    rw [Bool.and_eq_true, decide_eq_true_eq] at hof
    split at hof
  · cases hof.2
  · rename_i hkept
    exact hkept ⟨hof.1, isNone_iff_eq_none.mp hof.2⟩
  · cases of_decide_eq_true hof.2
  · rename_i hkept
    exact hkept ⟨hof.1, of_decide_eq_true hof.2⟩
  · cases hof.2
  · rename_i hkept
    exact hkept ⟨hof.1, isNone_iff_eq_none.mp hof.2⟩
  · cases hof.2
  · rename_i hkept
    exact hkept ⟨hof.1, isNone_iff_eq_none.mp hof.2⟩

/-- The approval is accepted: the connection is pending, and there is a vault of the user's for it
or a name. -/
def isApprovable (now : Int) (connectionId userId : String) (approval : Approval) (db : Db) : Bool :=
  (((expireConnections now db).connections.find? fun connection =>
    connection.connectionId = connectionId).any fun connection => connection.status = .pending) &&
  match approval with
  | .existingVault vaultId =>
    (db.vaults.find? fun vault => vault.vaultId = vaultId && vault.ownerUserId = userId).any
      fun vault => vault.status = .active
  | .newVault displayName => !displayName.isEmpty

/-- No approval looks at the user. -/
lemma approve_isSome (now : Int) (connectionId userId : String) (approval : Approval) (db : Db) :
    (approve now connectionId userId approval db).isSome = isApprovable now connectionId userId approval db := by
  unfold approve isApprovable
  dsimp only
  split
  · rename_i hfind
    rw [hfind]
    rfl
  rename_i connection hfind
  rw [hfind]
  by_cases hpend : connection.status = .pending
  · simp only [hpend, ne_eq, not_true_eq_false, if_false, Option.any_some, decide_true, Bool.true_and]
    cases approval with
    | existingVault vaultId =>
      have hvaults : (expireConnections now db).vaults = db.vaults := rfl
      simp only [hvaults]
      split
      · rename_i hvault
        simp [hvault]
      rename_i vault hvault
      by_cases hact : vault.status = .active
      · simp [hvault, hact]
      · simp [hvault, hact]
    | newVault displayName =>
      by_cases hname : displayName.isEmpty = true
      · simp [hname]
      · simp [hname]
  · simp [hpend]

/-- An approval of another user's gives this one nothing. -/
lemma GainsNothing.approve (hsound : Sound crypto past s)
    (hother : other ≠ userId) (h : approve s.now connectionId other approval s.db = some db') :
    GainsNothing userId s.db db' := by
  obtain ⟨row, hrow, -, -, f, rfl, hid, -, -, happr⟩ := approve_eq_some h
  have hexp := hsound.expire s.now
  have hsame := GainsNothing.expire userId s.now s.db
  refine { hsame with approved := ?_ }
  refine List.Sublist.trans (filter_map_sublist _ fun connection hmem hof => ?_) hsame.approved
  split at hof
  · rename_i hconn
    obtain rfl := eq_of_connectionId hexp.linked.connectionIds hmem hrow hconn
    rw [happr.2.1, Bool.and_eq_true, decide_eq_true_eq] at hof
    exact absurd (Option.some.inj hof.1) hother
  · rename_i hconn
    rw [if_neg hconn]
    exact ⟨hof, rfl⟩

/-- An approval of the user's gives them an approved connection. -/
lemma approve_gains (hsound : Sound crypto past s)
    (h : approve s.now connectionId userId approval s.db = some db') : ¬ GainsNothing userId s.db db' := by
  obtain ⟨row, hrow, -, hpend, f, rfl, hid, -, hstat, happr⟩ := approve_eq_some h
  intro hgains
  have hnew : row.connectionId ∈ ((expireConnections s.now s.db).setConnection row.connectionId
      f).approvedIds userId := by
    refine mem_map.mpr ⟨f row, mem_filter.mpr ⟨?_, ?_⟩, hid row⟩
    · exact mem_map.mpr ⟨row, hrow, if_pos rfl⟩
    · rw [happr.2.1, hstat, decide_eq_true rfl, decide_eq_true rfl, Bool.and_self]
  obtain ⟨old, hold, holdId⟩ := mem_map.mp (hgains.approved.subset hnew)
  obtain ⟨hmem, hof⟩ := mem_filter.mp hold
  rw [Bool.and_eq_true, decide_eq_true_eq, decide_eq_true_eq] at hof
  obtain ⟨before, hbef, rfl⟩ := mem_map.mp hrow
  have hsame : old = before := by
    refine eq_of_connectionId hsound.linked.connectionIds hmem hbef ?_
    exact holdId.trans (withdrawn_expire s.now before).connectionId
  rw [← hsame] at hpend
  unfold Connection.expire at hpend
  split at hpend
  · cases hpend
  · rw [hof.2] at hpend
    cases hpend

end Gains

/-- The user is disabled and holds nothing. -/
structure Locked (userId : String) (db : Db) : Prop where
  disabled : IsDisabled userId db
  none : NoCredential userId db

/-- The step enables the user again. -/
def Label.Enables (userId : String) : Label → Prop
  | .setUserDisabled _ targetUserId disabled => targetUserId = userId ∧ disabled = false
  | _ => False

/-- The step is no approval of the user's that is accepted. -/
def Label.ApprovesNothing (userId : String) (s : State) : Label → Prop
  | .approve connectionId approver approval =>
    approver = userId → isApprovable s.now connectionId userId approval s.db = false
  | _ => True

section Steps
variable {crypto : Crypto} {past : List Enrolled} {userId : String} {s s' : State} {label : Label}
  {labels : List Label}

lemma approve_rows {db db' : Db}
    (h : approve now connectionId other approval db = some db') : db'.accounts = db.accounts := by
  obtain ⟨row, -, -, -, f, rfl, -⟩ := approve_eq_some h
  rfl

/-- The steps that enter no mutation: requests that read, wait, make a repository or end. -/
def Label.OnlyReads : Label → Bool
  | .tick _ | .complete .. | .readSalt _ | .readExisting _ | .replay _ | .plan .. |
    .initializeRepository .. | .answer _ | .abandon _ | .createVault .. | .initializeVault .. |
    .abandonVault _ | .restart => true
  | _ => false

lemma step_db_of_onlyReads (hreads : label.OnlyReads) (hstep : s.step crypto label = some s') : s'.db = s.db := by
  cases label with
  | tick | restart =>
    cases hstep
    rfl
  | complete | createVault =>
    obtain ⟨-, ⟨⟩⟩ := ite_none_right_eq_some.mp hstep
    rfl
  | readSalt requestId =>
    obtain ⟨completion, hmem, rfl, hnext⟩ := withCompletion_eq_some hstep
    obtain ⟨-, hnext⟩ := ite_none_right_eq_some.mp hnext
    split at hnext
    · cases hnext
      rfl
    · cases hnext
      rfl
  | readExisting requestId =>
    obtain ⟨completion, hmem, rfl, hnext⟩ := withCompletion_eq_some hstep
    split at hnext
    · split at hnext
      all_goals
        cases hnext
        rfl
    · cases hnext
  | replay requestId =>
    obtain ⟨completion, hmem, rfl, hnext⟩ := withCompletion_eq_some hstep
    split at hnext
    · split at hnext
      · split at hnext
        · cases hnext
          rfl
        · cases hnext
          rfl
      · cases hnext
        rfl
    · cases hnext
  | plan requestId vaultId =>
    obtain ⟨completion, hmem, rfl, hnext⟩ := withCompletion_eq_some hstep
    split at hnext
    · unfold State.plan at hnext
      split at hnext
      · cases hnext
        rfl
      split at hnext
      · split at hnext
        · cases hnext
          rfl
        split at hnext
        · cases hnext
          rfl
        · cases hnext
      · split at hnext
        · cases hnext
          rfl
        · cases hnext
          rfl
    · cases hnext
  | initializeRepository | answer =>
    obtain ⟨completion, hmem, rfl, hnext⟩ := withCompletion_eq_some hstep
    split at hnext
    · split at hnext
      · cases hnext
        rfl
      · cases hnext
        rfl
    · cases hnext
  | abandon requestId =>
    obtain ⟨completion, hmem, rfl, hnext⟩ := withCompletion_eq_some hstep
    cases hnext
    rfl
  | initializeVault requestId initialization =>
    obtain ⟨creation, hcre, rfl, hnext⟩ := withCreation_eq_some hstep
    obtain ⟨-, hnext⟩ := ite_none_right_eq_some.mp hnext
    split at hnext
    · cases hnext
      rfl
    · cases hnext
      rfl
  | abandonVault requestId =>
    obtain ⟨creation, hcre, rfl, hnext⟩ := withCreation_eq_some hstep
    cases hnext
    rfl
  | _ => cases hreads

/-- One step gains a disabled user nothing, unless it enables them or is an approval of theirs. -/
lemma Locked.step (hsound : Sound crypto past s) (h : Locked userId s.db)
    (hstep : s.step crypto label = some s') (hkept : ¬ label.Enables userId)
    (happ : label.ApprovesNothing userId s) : GainsNothing userId s.db s'.db ∧ IsDisabled userId s'.db := by
  by_cases hreads : label.OnlyReads = true
  · rw [step_db_of_onlyReads hreads hstep]
    exact ⟨.refl userId s.db, h.disabled⟩
  have hsame : ∀ {db : Db}, db.accounts = s.db.accounts → db.connections = s.db.connections →
      db.devices = s.db.devices → db.tokens = s.db.tokens →
        GainsNothing userId s.db db ∧ IsDisabled userId db :=
    fun hacc hconns hdevs htoks =>
      ⟨.of_eq (congrArg LoginThrottle.Db.sessions hacc) hconns hdevs htoks,
        h.disabled.of_eq (congrArg LoginThrottle.Db.users hacc)⟩
  cases label with
  | create connectionId secret credentialSalt deviceName =>
    obtain ⟨-, ⟨⟩⟩ := ite_none_right_eq_some.mp hstep
    have hexp := GainsNothing.expire userId s.now s.db
    refine ⟨{ hexp with approved := ?_ }, h.disabled.of_eq rfl⟩
    exact List.Sublist.trans (filter_append_sublist _ rfl) hexp.approved
  | status connectionId =>
    cases hstep
    cases connectionId with
    | none => exact ⟨.expire userId s.now s.db, h.disabled.of_eq rfl⟩
    | some connectionId =>
      exact ⟨(GainsNothing.expire userId s.now s.db).trans (.refresh userId s.now connectionId _),
        h.disabled.of_eq rfl⟩
  | expire connectionId =>
    cases hstep
    exact ⟨.refresh userId s.now connectionId s.db, h.disabled.of_eq rfl⟩
  | approve connectionId approver approval =>
    obtain ⟨db, happr, rfl⟩ := map_eq_some_iff.mp hstep
    refine ⟨.approve hsound (fun heq => ?_) happr,
      h.disabled.of_eq (congrArg LoginThrottle.Db.users (approve_rows happr))⟩
    have href := happ heq
    rw [← approve_isSome, ← heq, happr] at href
    cases href
  | deny connectionId denier =>
    obtain ⟨db, hdeny, rfl⟩ := map_eq_some_iff.mp hstep
    unfold deny at hdeny
    split at hdeny
    · cases hdeny
    split at hdeny
    · cases hdeny
    cases hdeny
    refine ⟨.connectionRows (fun connection _ hstat => ?_) rfl rfl rfl rfl, h.disabled.of_eq rfl⟩
    split at hstat
    · cases hstat
    · rename_i hother
      exact if_neg hother
  | setUserDisabled actorUserId targetUserId disabled =>
    obtain ⟨db, hset, rfl⟩ := map_eq_some_iff.mp hstep
    obtain ⟨-, rfl⟩ := setUserDisabled_eq_some hset
    refine ⟨.setUserDisabled userId s.now targetUserId disabled s.db, h.disabled.setUserDisabled fun heq => ?_⟩
    rw [← Bool.not_eq_false]
    exact fun hfalse => hkept ⟨heq, hfalse⟩
  | setupInitialAdmin user sessionId csrfToken =>
    obtain ⟨hempty, hstep⟩ := ite_none_right_eq_some.mp hstep
    have hknown := h.disabled.1
    rw [hempty.1] at hknown
    cases hknown
  | createUser user =>
    obtain ⟨hfresh, ⟨⟩⟩ := ite_none_right_eq_some.mp hstep
    refine ⟨.of_eq rfl rfl rfl rfl, ?_, fun other hmem hid => ?_⟩
    · rw [map_append]
      exact mem_append_left _ h.disabled.1
    rcases mem_append.mp hmem with hmem | hmem
    · exact h.disabled.2 other hmem hid
    · obtain rfl := mem_singleton.mp hmem
      exact absurd (hid ▸ h.disabled.1) hfresh.1
  | login call sessionId csrfToken =>
    cases hstep
    rcases login_rows crypto.verifyPassword call sessionId csrfToken s.db.accounts with
      ⟨husers, hsess⟩ | ⟨user, hmem, henab, husers, hsess⟩
    · exact ⟨.of_eq hsess rfl rfl rfl, h.disabled.of_eq husers⟩
    have hother : user.userId ≠ userId := fun heq => by
      rw [h.disabled.2 user hmem heq] at henab
      cases henab
    have hrefl := GainsNothing.refl userId s.db
    refine ⟨{ hrefl with sessions := ?_, liveSessions := ?_ }, h.disabled.login husers⟩
    · rw [Db.sessionIds, hsess]
      exact filter_append_sublist _ (decide_eq_false hother)
    rw [Db.liveSessionIds, hsess]
    refine filter_append_sublist _ ?_
    rw [createSession, decide_eq_false hother, Bool.false_and]
  | reauthenticate call sessionId =>
    cases hstep
    rcases reauthenticateSession_rows crypto.verifyPassword call sessionId s.db.accounts with
      ⟨husers, hsess⟩ | ⟨user, session, session', hmem, hlive, huser, hid, husers, hsess⟩
    · exact ⟨.of_eq hsess rfl rfl rfl, h.disabled.of_eq husers⟩
    -- the session that is confirmed is live, so it is another user's
    have hother : session.userId ≠ userId := fun heq => by
      refine ne_nil_of_mem (mem_map_of_mem (mem_filter.mpr ⟨hmem, ?_⟩))
        h.none.sessions
      rw [hlive, decide_eq_true heq, Option.isNone_none, Bool.and_self]
    refine ⟨.sessionRows (fun row _ hof => ?_) hsess rfl rfl rfl, h.disabled.login husers⟩
    split at hof
    · exact absurd (huser.symm.trans hof) hother
    rename_i hrow
    rw [if_neg hrow]
    exact ⟨hof, rfl, fun hrvk => hrvk⟩
  | logout sessionId =>
    cases hstep
    refine ⟨.sessionRows (fun session _ hof => ?_) rfl rfl rfl rfl, h.disabled.of_eq rfl⟩
    split at hof <;> split
    all_goals first
      | exact ⟨hof, rfl, fun _ => some_ne_none s.now⟩
      | exact ⟨hof, rfl, fun hrvk => hrvk⟩
  | revokeDevice deviceId =>
    cases hstep
    have hrefl := GainsNothing.refl userId s.db
    refine ⟨⟨hrefl.sessions, hrefl.liveSessions, hrefl.approved, ?_, ?_, ?_⟩, h.disabled.of_eq rfl⟩
    · refine filter_map_sublist _ fun device _ hof => ?_
      split at hof <;> split
      all_goals exact ⟨hof, rfl⟩
    · refine filter_map_sublist _ fun device _ hof => ?_
      split at hof
      · rw [isNone_some, Bool.and_false] at hof
        cases hof
      rename_i hdev
      rw [if_neg hdev]
      exact ⟨hof, rfl⟩
    · refine filter_map_sublist _ fun token _ hof => ?_
      split at hof
      · rw [isNone_some, Bool.and_false] at hof
        cases hof
      rename_i htoken
      rw [if_neg htoken]
      exact ⟨hof, rfl⟩
  | changeVault vaultId status currentMain =>
    cases hstep
    exact hsame rfl rfl rfl rfl
  | commit requestId deviceId tokenId persisted =>
    obtain ⟨completion, hmem, rfl, hnext⟩ := withCompletion_eq_some hstep
    split at hnext
    · rename_i deviceToken connection vaultId rootCommit hstage
      split at hnext
      · cases hnext
        unfold State.commit
        split
        · rename_i db enrolled hcpl
          exact ⟨.complete h.none.approved hcpl,
            h.disabled.of_eq (congrArg LoginThrottle.Db.users (completeConnection_rows hcpl).2.2.1)⟩
        · exact hsame rfl rfl rfl rfl
      · cases hnext
    · cases hnext
  | commitVault requestId persisted =>
    obtain ⟨creation, hcre, rfl, hnext⟩ := withCreation_eq_some hstep
    obtain ⟨rootCommit, -, rfl⟩ := map_eq_some_iff.mp hnext
    cases persisted with
    | true | false => exact hsame rfl rfl rfl rfl
  | _ => exact absurd rfl hreads

/-- Every step of the run meets the condition. -/
def State.Throughout (crypto : Crypto) (condition : State → Label → State → Prop) (s : State) :
    List Label → Prop
  | [] => True
  | label :: labels => ∀ s', s.step crypto label = some s' →
    condition s label s' ∧ s'.Throughout crypto condition labels

/-- No step gains a disabled user anything, as long as they approve nothing, and only then. -/
lemma Locked.throughout_iff (hsound : Sound crypto past s)
    (h : Locked userId s.db) (hkept : ∀ label ∈ labels, ¬ label.Enables userId) :
    s.Throughout crypto (fun s _ s' => GainsNothing userId s.db s'.db) labels ↔
      s.Throughout crypto (fun s label _ => label.ApprovesNothing userId s) labels := by
  induction labels generalizing s with
  | nil => exact Iff.rfl
  | cons label labels ih =>
    have hlabel := hkept label mem_cons_self
    have htail := fun other hmem => hkept other (mem_cons_of_mem label hmem)
    constructor
    · intro hgains s' hstep
      have happr : label.ApprovesNothing userId s := by
        cases label with
        | approve connectionId approver approval =>
          rintro rfl
          obtain ⟨db, happ, rfl⟩ := map_eq_some_iff.mp hstep
          exact absurd (hgains _ hstep).1 (approve_gains hsound happ)
        | _ => trivial
      obtain ⟨hgain, hdis⟩ := h.step hsound hstep hlabel happr
      exact ⟨happr, (ih (hsound.step hstep) ⟨hdis, h.none.gainsNothing hgain⟩ htail).mp (hgains s' hstep).2⟩
    · intro happr s' hstep
      obtain ⟨hgain, hdis⟩ := h.step hsound hstep hlabel (happr s' hstep).1
      exact ⟨hgain, (ih (hsound.step hstep) ⟨hdis, h.none.gainsNothing hgain⟩ htail).mpr (happr s' hstep).2⟩

lemma Locked.run (hsound : Sound crypto past s) (h : Locked userId s.db)
    (hkept : ∀ label ∈ labels, ¬ label.Enables userId)
    (happr : s.Throughout crypto (fun s label _ => label.ApprovesNothing userId s) labels)
    (hrun : s.run crypto labels = some s') : Locked userId s'.db := by
  induction labels generalizing s with
  | nil =>
    cases hrun
    exact h
  | cons label labels ih =>
    obtain ⟨next, hstep, hrun⟩ := Option.bind_eq_some_iff.mp hrun
    obtain ⟨hlabel, htail⟩ := happr next hstep
    obtain ⟨hgain, hdis⟩ := h.step hsound hstep (hkept label mem_cons_self) hlabel
    exact ih (hsound.step hstep) ⟨hdis, h.none.gainsNothing hgain⟩
      (fun other hmem => hkept other (mem_cons_of_mem label hmem)) htail hrun

end Steps

/-- After a user is disabled, and until they are enabled again, no step gains them anything if and
only if no approval of theirs is accepted; and then they hold nothing when they are enabled. -/
theorem disabled_user_gains_nothing_iff (crypto : Crypto) (accounts : LoginThrottle.Db)
    (vaults : List Vault) (deletionJobs deletionReceipts : List String) (now : Int)
    {actorUserId userId : String} {before during : List Label} {s₀ s : State}
    (hbefore : (State.start accounts vaults deletionJobs deletionReceipts now).run crypto before
      = some s₀) (hdisable : s₀.step crypto (.setUserDisabled actorUserId userId true) = some s)
    (hkept : ∀ label ∈ during, ¬ label.Enables userId) :
    (s.Throughout crypto (fun s _ s' => GainsNothing userId s.db s'.db) during ↔
      s.Throughout crypto (fun s label _ => label.ApprovesNothing userId s) during) ∧
    (s.Throughout crypto (fun s label _ => label.ApprovesNothing userId s) during →
      ∀ otherUserId s' s'', s.run crypto during = some s' →
        s'.step crypto (.setUserDisabled otherUserId userId false) = some s'' → NoCredential userId s''.db) := by
  have hsound₀ := (sound_start crypto accounts vaults deletionJobs deletionReceipts now).run hbefore
  have hsound := hsound₀.step hdisable
  have hlck : Locked userId s.db := by
    obtain ⟨db, hset, rfl⟩ := map_eq_some_iff.mp hdisable
    obtain ⟨hknown, rfl⟩ := setUserDisabled_eq_some hset
    obtain ⟨hdis, hnone⟩ : IsDisabled userId (withUserDisabled s₀.now userId true s₀.db) ∧ _ :=
      withUserDisabled_locks hknown
    exact ⟨hdis, hnone⟩
  refine ⟨hlck.throughout_iff hsound hkept, fun happr otherUserId s' s'' hdur henab => ?_⟩
  obtain ⟨db, hset, rfl⟩ := map_eq_some_iff.mp henab
  obtain ⟨-, rfl⟩ := setUserDisabled_eq_some hset
  exact (hlck.run hsound hkept happr hdur).none.gainsNothing (.setUserDisabled userId s'.now userId false s'.db)

def disablingAccounts : LoginThrottle.Db where
  users := [sampleUser, ⟨"usr_2", "second", "secret", false, false, none⟩]
  sessions := []
  loginAttempts := []

lemma createdRun_isSome : ((State.start disablingAccounts [] [] [] 0).run sampleCrypto
    [.create "con_1" "secret" "salt" "laptop"]).isSome := by
  decide +kernel

def createdState : State := ((State.start disablingAccounts [] [] [] 0).run sampleCrypto
  [.create "con_1" "secret" "salt" "laptop"]).get createdRun_isSome

lemma disabledStep_isSome : (createdState.step sampleCrypto (.setUserDisabled "usr_1" "usr_2" true)).isSome := by
  decide +kernel

def disabledState : State :=
  (createdState.step sampleCrypto (.setUserDisabled "usr_1" "usr_2" true)).get disabledStep_isSome

/-- The approval of the disabled user is accepted, and a device is enrolled for them. -/
def straddlingLabels : List Label :=
  [.approve "con_1" "usr_2" (.newVault "Notes"), .complete "req_1" "con_1" "secret" ⟨.initializing, none⟩,
    .readSalt "req_1", .readExisting "req_1", .plan "req_1" "vlt_1",
    .initializeRepository "req_1" (.initialized "root"), .commit "req_1" "dev_1" "tok_1" true]

lemma straddlingRun_isSome : (disabledState.run sampleCrypto straddlingLabels).isSome := by
  decide +kernel

/-- A user who was disabled holds a device and a token that nobody revoked. -/
theorem disabled_user_gains_device : ¬ ∀ (crypto : Crypto) (accounts : LoginThrottle.Db) (vaults : List Vault)
      (deletionJobs deletionReceipts : List String) (now : Int) (actorUserId userId : String)
      (before during : List Label) (s₀ s s' : State),
      (State.start accounts vaults deletionJobs deletionReceipts now).run crypto before = some s₀ →
      s₀.step crypto (.setUserDisabled actorUserId userId true) = some s →
      (∀ label ∈ during, ¬ label.Enables userId) → s.run crypto during = some s' →
        s'.db.liveDeviceIds userId = [] ∧ s'.db.liveTokenIds userId = [] := by
  intro h
  have hclaim := h sampleCrypto disablingAccounts [] [] [] 0 "usr_1" "usr_2" _ straddlingLabels _ _ _
    (eq_some_of_isSome createdRun_isSome) (eq_some_of_isSome disabledStep_isSome)
    (by simp [straddlingLabels, Label.Enables]) (eq_some_of_isSome straddlingRun_isSome)
  have hdevs : ((disabledState.run sampleCrypto straddlingLabels).get
      straddlingRun_isSome).db.liveDeviceIds "usr_2" = ["dev_1"] := by
    decide +kernel
  have hnone := hclaim.1
  change ((disabledState.run sampleCrypto straddlingLabels).get
    straddlingRun_isSome).db.liveDeviceIds "usr_2" = [] at hnone
  cases hnone

/-- The disabled user tries to log in. -/
def refusedLabels : List Label :=
  [.login { username := "second", password := "secret", startedAt := 1, checkedAt := 1, decidedAt := 1 }
    "ses_1" "csrf"]

theorem disabled_user_gains_nothing_sample :
    disabledState.Throughout sampleCrypto (fun s _ s' => GainsNothing "usr_2" s.db s'.db)
      refusedLabels :=
  (disabled_user_gains_nothing_iff sampleCrypto disablingAccounts [] [] [] 0
    (eq_some_of_isSome createdRun_isSome) (eq_some_of_isSome disabledStep_isSome)
    (by simp [refusedLabels, Label.Enables])).1.mpr fun _ _ => ⟨trivial, trivial⟩

end Enrolment
