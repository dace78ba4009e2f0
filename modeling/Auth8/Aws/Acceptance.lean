import Auth8.Aws.CleanUp

/-! # What the service accepts

The messages that the service has taken for the devices, over the remote calls of `sendMessage`. Any of
these may throw, and a publication that throws may have been accepted all the same. -/
namespace Auth8.Aws
open EventRuns Persistent
set_option autoImplicit false

variable {σ : Type}

/-- An endpoint belongs to the token it was created for, and a message is accepted in its publication. -/
structure Acceptance (sns : AmazonSNS σ) where
  token : String → String
  /-- the last one first -/
  accepted : σ → List PublishRequest
  application_accepted : ∀ r s, accepted (sns.createPlatformApplication r s).2 = accepted s
  endpoint_token : ∀ r s e, (sns.createPlatformEndpoint r s).1 = some e → token e = r.token
  endpoint_accepted : ∀ r s, accepted (sns.createPlatformEndpoint r s).2 = accepted s
  publish_accepted : ∀ r s, accepted (sns.publish r s).2 = r :: accepted s ∨
    (sns.publish r s).1 = none ∧ accepted (sns.publish r s).2 = accepted s
  delete_accepted : ∀ arn s, accepted (sns.deletePlatformApplication arn s).2 = accepted s

/-- The message is not published yet. -/
def DemoPc.isOpen : DemoPc → Bool
  | .createApplication | .createEndpoint _ | .publish _ _ => true
  | _ => false

def DemoPc.hasEnded : DemoPc → Bool
  | .returned _ | .threw => true
  | _ => false

/-- The request that publishes the message of a push. -/
def PushCall.message (call : PushCall) (jsonify : Json → Option String) (endpointArn : String) :
    Option PublishRequest :=
  Aws.publish jsonify endpointArn .GCM attributesMap call.requestId call.payload

/-- The message has been composed where it is needed; otherwise `jsonify` has thrown. -/
def PushCall.isComposed (call : PushCall) (jsonify : Json → Option String) : Bool :=
  match call.pc with
  | .publish _ endpointArn => (call.message jsonify endpointArn).isSome
  | _ => true

variable {sns : AmazonSNS σ} {jsonify : Json → Option String} {serverAPIKey : String}

theorem composed_of_jsonify (hjson : ∀ j, jsonify j ≠ none) (call : PushCall) :
    call.isComposed jsonify = true := by
  unfold PushCall.isComposed
  split
  · next arn e _ =>
    obtain ⟨r, hr, _⟩ := publish_request jsonify hjson e .GCM attributesMap call.requestId call.payload
    exact Option.isSome_iff_exists.mpr ⟨r, hr⟩
  · rfl

theorem publish_target {endpointArn : String} {platform : Platform} {attributes : Platform → Attributes}
    {requestId : String} {payload : List (String × String)} {r : PublishRequest}
    (h : publish jsonify endpointArn platform attributes requestId payload = some r) :
    r.targetArn = endpointArn := by
  obtain ⟨_, _, h⟩ := Option.bind_eq_some_iff.mp h
  obtain ⟨_, _, rfl⟩ := Option.map_eq_some_iff.mp h
  rfl

/-- What a remote call can do to the messages: the position of its push before and after it. -/
inductive Accepts (D : Acceptance sns) (jsonify : Json → Option String) (call : PushCall) (m m' : σ) :
    DemoPc → DemoPc → Prop where
  | application (arn : String) (hsame : D.accepted m' = D.accepted m) :
      Accepts D jsonify call m m' .createApplication (.createEndpoint arn)
  | endpoint (arn e : String) (htoken : D.token e = call.device.regid)
      (hsame : D.accepted m' = D.accepted m) :
      Accepts D jsonify call m m' (.createEndpoint arn) (.publish arn e)
  | publish (arn e messageId : String) (r : PublishRequest) (hr : call.message jsonify e = some r)
      (hnew : D.accepted m' = r :: D.accepted m) :
      Accepts D jsonify call m m' (.publish arn e) (.deleteApplication arn messageId)
  | applicationThrew (hsame : D.accepted m' = D.accepted m) :
      Accepts D jsonify call m m' .createApplication .threw
  | endpointThrew (arn : String) (hsame : D.accepted m' = D.accepted m) :
      Accepts D jsonify call m m' (.createEndpoint arn) .threw
  | publishThrew (arn e : String) (hsame : D.accepted m' = D.accepted m) :
      Accepts D jsonify call m m' (.publish arn e) .threw
  /-- the answer of the service is lost -/
  | publishLost (arn e : String) (r : PublishRequest) (hr : call.message jsonify e = some r)
      (hnew : D.accepted m' = r :: D.accepted m) :
      Accepts D jsonify call m m' (.publish arn e) .threw
  | delete (arn messageId : String) (q : DemoPc) (hq : q.hasEnded = true)
      (hsame : D.accepted m' = D.accepted m) :
      Accepts D jsonify call m m' (.deleteApplication arn messageId) q

theorem accepts_of_step (D : Acceptance sns) {call : PushCall} {m m' : σ} {pc q : DemoPc}
    (h : (demoAndroidAppNotification serverAPIKey call.device call.requestId call.payload).step sns
      jsonify m pc = some (q, m')) : Accepts D jsonify call m m' pc q := by
  cases pc with
  | createApplication =>
    obtain ⟨rfl, ⟨arn, _, rfl⟩ | ⟨_, rfl⟩⟩ := DemoPc.after_eq (Option.some.inj h)
    · exact .application arn (D.application_accepted _ m)
    · exact .applicationThrew (D.application_accepted _ m)
  | createEndpoint arn =>
    obtain ⟨r, hr, htoken⟩ : ∃ r, (demoAndroidAppNotification serverAPIKey call.device call.requestId
        call.payload).endpoint arn = some r ∧ r.token = call.device.regid := ⟨_, rfl, rfl⟩
    rw [DemoNotification.step, hr] at h
    obtain ⟨rfl, ⟨e, he, rfl⟩ | ⟨_, rfl⟩⟩ := DemoPc.after_eq (Option.some.inj h)
    · exact .endpoint arn e ((D.endpoint_token r m e he).trans htoken) (D.endpoint_accepted r m)
    · exact .endpointThrew arn (D.endpoint_accepted r m)
  | publish arn e =>
    have hmessage : (demoAndroidAppNotification serverAPIKey call.device call.requestId
        call.payload).message jsonify e = call.message jsonify e := rfl
    rw [DemoNotification.step, hmessage] at h
    cases hr : call.message jsonify e with
    | none =>
      rw [hr] at h
      cases h
      exact .publishThrew arn e rfl
    | some r =>
      rw [hr] at h
      obtain ⟨rfl, ⟨messageId, hid, rfl⟩ | ⟨_, rfl⟩⟩ := DemoPc.after_eq (Option.some.inj h)
      · refine .publish arn e messageId r hr ?_
        obtain hnew | ⟨hnone, _⟩ := D.publish_accepted r m
        · exact hnew
        · rw [hnone] at hid
          cases hid
      · obtain hnew | ⟨_, hsame⟩ := D.publish_accepted r m
        · exact .publishLost arn e r hr hnew
        · exact .publishThrew arn e hsame
  | deleteApplication arn messageId =>
    obtain ⟨rfl, ⟨_, _, rfl⟩ | ⟨_, rfl⟩⟩ := DemoPc.after_eq (Option.some.inj h)
    · exact .delete arn messageId _ rfl (D.delete_accepted arn m)
    · exact .delete arn messageId _ rfl (D.delete_accepted arn m)
  | returned messageId => cases h
  | threw => cases h

/-! ## A service that keeps its messages -/

/-- The ARN of an endpoint: the length of the token, the token and the ARN of the application. -/
def mailEndpoint (token arn : String) : String :=
  String.ofList (List.replicate token.toList.length '0' ++ '1' :: (token.toList ++ arn.toList))

/-- The token and the ARN of the application of an endpoint. -/
def readEndpoint (e : String) : String × String :=
  let length := (e.toList.takeWhile fun c => decide (c = '0')).length
  let rest := e.toList.drop (length + 1)
  (String.ofList (rest.take length), String.ofList (rest.drop length))

theorem readEndpoint_mailEndpoint (token arn : String) :
    readEndpoint (mailEndpoint token arn) = (token, arn) := by
  have hlength : ((mailEndpoint token arn).toList.takeWhile fun c => decide (c = '0')) =
      List.replicate token.toList.length '0' := by
    rw [mailEndpoint, String.toList_ofList, List.takeWhile_append_of_pos]
    · simp
    · intro c hc
      rw [List.eq_of_mem_replicate hc]
      rfl
  have hrest : (mailEndpoint token arn).toList.drop (token.toList.length + 1) =
      token.toList ++ arn.toList := by
    rw [mailEndpoint, String.toList_ofList, ← List.drop_drop]
    rw [List.drop_left' (List.length_replicate ..)]
    rfl
  simp only [readEndpoint, hlength, List.length_replicate, hrest, List.take_left, List.drop_left,
    String.ofList_toList]

/-- A service with the ARNs of its applications and the messages it has accepted. -/
def mailSns : AmazonSNS (Finset String × List PublishRequest) where
  createPlatformApplication r s :=
    (some (r.platform ++ "/" ++ r.name), insert (r.platform ++ "/" ++ r.name) s.1, s.2)
  createPlatformEndpoint r s :=
    (if r.platformApplicationArn ∈ s.1 then some (mailEndpoint r.token r.platformApplicationArn)
      else none, s)
  publish r s :=
    if (readEndpoint r.targetArn).2 ∈ s.1 then (some "message", s.1, r :: s.2) else (none, s)
  deletePlatformApplication a s := (some (), s.1.erase a, s.2)

theorem mailSns_endpoint {r : CreatePlatformEndpointRequest} {s : Finset String × List PublishRequest}
    {e : String} (h : (mailSns.createPlatformEndpoint r s).1 = some e) :
    e = mailEndpoint r.token r.platformApplicationArn := by
  simp only [mailSns] at h
  split at h
  · exact (Option.some.inj h).symm
  · cases h

def mailApplications : Applications mailSns where
  arn r := r.platform ++ "/" ++ r.name
  applicationArn e := (readEndpoint e).2
  live s a := a ∈ s.1
  create_arn _ _ := rfl
  create_live _ _ _ := Finset.mem_insert
  endpoint_isSome r s := by
    by_cases h : r.platformApplicationArn ∈ s.1 <;> simp [mailSns, h]
  endpoint_arn r s e he := by rw [mailSns_endpoint he, readEndpoint_mailEndpoint]
  endpoint_live _ _ _ := Iff.rfl
  publish_isSome r s := by
    by_cases h : (readEndpoint r.targetArn).2 ∈ s.1 <;> simp [mailSns, h]
  publish_live r s a := by
    by_cases h : (readEndpoint r.targetArn).2 ∈ s.1 <;> simp [mailSns, h]
  delete_isSome _ _ := rfl
  delete_live _ _ _ := by simp [mailSns, Finset.mem_erase, and_comm]

def mailAcceptance : Acceptance mailSns where
  token e := (readEndpoint e).1
  accepted := Prod.snd
  application_accepted _ _ := rfl
  endpoint_token r s e he := by rw [mailSns_endpoint he, readEndpoint_mailEndpoint]
  endpoint_accepted _ _ := rfl
  publish_accepted r s := by
    by_cases h : (readEndpoint r.targetArn).2 ∈ s.1 <;> simp [mailSns, h]
  delete_accepted _ _ := rfl

end Auth8.Aws
