import Auth8.Aws.SnsMessageGenerator
import Mathlib.Data.List.DropRight

/-! # The class `SNSClientWrapper`

The requests the four private methods build, and `demoNotification` as a sequence of its four remote
calls. The service is a parameter: what it answers to a request, if it does not throw, and how its state
changes. An exception ends the sequence where it is thrown. -/
namespace Auth8.Aws
set_option autoImplicit false

/-! ## `StringUtils` -/

/-- `String.trim`. -/
def trim (s : String) : String :=
  String.ofList ((s.toList.dropWhile fun c => decide (c ≤ ' ')).rdropWhile fun c => decide (c ≤ ' '))

def isEmpty : Option String → Bool
  | none => true
  | some s => decide (s.length < 1)

def isBlank (s : Option String) : Bool := isEmpty s || isEmpty (s.map trim)

/-- `s.split("\\|")`: the parts between the bars, without the empty ones at the end; a string without a
bar is its only part. -/
def splitBar (s : String) : List String :=
  if '|' ∈ s.toList then ((s.toList.splitOn '|').rdropWhile List.isEmpty).map String.ofList else [s]

/-! ## The requests -/

structure MessageAttributeValue where
  dataType : String
  stringValue : Option String
  deriving DecidableEq, Repr

abbrev Attributes := Option (List (String × MessageAttributeValue))

structure CreatePlatformApplicationRequest where
  attributes : List (String × String)
  name : String
  platform : String
  deriving DecidableEq, Repr

structure CreatePlatformEndpointRequest where
  customUserData : String
  attributes : Option (List (String × String))
  token : String
  platformApplicationArn : String
  deriving DecidableEq, Repr

structure PublishRequest where
  messageAttributes : Attributes
  messageStructure : String
  targetArn : String
  message : String
  deriving DecidableEq, Repr

def createPlatformApplication (applicationName : String) (platform : Platform)
    (principal credential : String) : CreatePlatformApplicationRequest where
  attributes := [("PlatformPrincipal", principal), ("PlatformCredential", credential)]
  name := applicationName
  platform := platform.name

/-- The request of `createPlatformEndpoint`; a BAIDU token without a second part throws. -/
def createPlatformEndpoint (platform : Platform) (customData platformToken applicationArn : String) :
    Option CreatePlatformEndpointRequest :=
  match platform with
  | .BAIDU =>
    match splitBar platformToken with
    | token :: userId :: _ =>
      some ⟨customData, some [("UserId", userId), ("ChannelId", token)], token, applicationArn⟩
    | _ => none
  | _ => some ⟨customData, none, platformToken, applicationArn⟩

def getValidNotificationAttributes (notificationAttributes : Attributes) :
    List (String × MessageAttributeValue) :=
  match notificationAttributes with
  | none => []
  | some attributes => attributes.filter fun entry => !isBlank entry.2.stringValue

section
variable (jsonify : Json → Option String)

def getAndroidMessage (requestId : String) (payload : List (String × String)) : Option String :=
  jsonify (.map [("collapse_key", .str requestId), ("data", .ofMap payload),
    ("delay_while_idle", .bool true), ("time_to_live", .int 125), ("dry_run", .bool false)])

def getPlatformSampleMessage (platform : Platform) (requestId : String)
    (payload : List (String × String)) : Option String :=
  match platform with
  | .APNS => getSampleAppleMessage jsonify
  | .APNS_SANDBOX => getSampleAppleMessage jsonify
  | .GCM => getAndroidMessage jsonify requestId payload
  | .ADM => getSampleKindleMessage jsonify
  | .BAIDU => getSampleBaiduMessage jsonify
  | .WNS => some getSampleWNSMessage
  | .MPNS => some getSampleMPNSMessage

def publish (endpointArn : String) (platform : Platform) (attributesMap : Platform → Attributes)
    (requestId : String) (payload : List (String × String)) : Option PublishRequest :=
  let notificationAttributes := getValidNotificationAttributes (attributesMap platform)
  (getPlatformSampleMessage jsonify platform requestId payload).bind fun message =>
    (jsonify (.map [(platform.name, .str message)])).map fun message =>
      { messageAttributes := if notificationAttributes.isEmpty then none else some notificationAttributes
        messageStructure := "json"
        targetArn := endpointArn
        message := message }

/-- The request goes to the endpoint, and it can be built when the library writes every map. -/
theorem publish_request (hjson : ∀ j, jsonify j ≠ none) (endpointArn : String) (platform : Platform)
    (attributesMap : Platform → Attributes) (requestId : String) (payload : List (String × String)) :
    ∃ r, publish jsonify endpointArn platform attributesMap requestId payload = some r ∧
      r.targetArn = endpointArn := by
  have hmessage : getPlatformSampleMessage jsonify platform requestId payload ≠ none := by
    cases platform <;> first | exact hjson _ | exact Option.some_ne_none _
  obtain ⟨m, hm⟩ := Option.ne_none_iff_exists'.mp hmessage
  obtain ⟨k, hk⟩ := Option.ne_none_iff_exists'.mp (hjson (.map [(platform.name, .str m)]))
  exact ⟨_, by rw [publish, hm, Option.bind_some, hk]; rfl, rfl⟩

end

/-! ## The service -/

/-- The remote calls of the client, on a service with states `σ`; no result is an exception. -/
structure AmazonSNS (σ : Type) where
  createPlatformApplication : CreatePlatformApplicationRequest → σ → Option String × σ
  createPlatformEndpoint : CreatePlatformEndpointRequest → σ → Option String × σ
  publish : PublishRequest → σ → Option String × σ
  deletePlatformApplication : String → σ → Option Unit × σ

/-- The applications of a service that does not fail on its own: equal requests create the same one, an
endpoint is created, and a message published, exactly while the application exists. -/
structure Applications {σ : Type} (sns : AmazonSNS σ) where
  arn : CreatePlatformApplicationRequest → String
  /-- the application of an endpoint -/
  applicationArn : String → String
  live : σ → String → Prop
  create_arn : ∀ r s, (sns.createPlatformApplication r s).1 = some (arn r)
  create_live : ∀ r s a, live (sns.createPlatformApplication r s).2 a ↔ a = arn r ∨ live s a
  endpoint_isSome : ∀ r s,
    (sns.createPlatformEndpoint r s).1.isSome ↔ live s r.platformApplicationArn
  endpoint_arn : ∀ r s e, (sns.createPlatformEndpoint r s).1 = some e →
    applicationArn e = r.platformApplicationArn
  endpoint_live : ∀ r s a, live (sns.createPlatformEndpoint r s).2 a ↔ live s a
  publish_isSome : ∀ r s, (sns.publish r s).1.isSome ↔ live s (applicationArn r.targetArn)
  publish_live : ∀ r s a, live (sns.publish r s).2 a ↔ live s a
  delete_isSome : ∀ a s, (sns.deletePlatformApplication a s).1.isSome
  delete_live : ∀ a s b, live (sns.deletePlatformApplication a s).2 b ↔ live s b ∧ b ≠ a

/-! ## `demoNotification` -/

structure DemoNotification where
  platform : Platform
  principal : String
  credential : String
  platformToken : String
  applicationName : String
  attrsMap : Platform → Attributes
  requestId : String
  payload : List (String × String)

/-- The position in `demoNotification`, with the results it still needs. -/
inductive DemoPc where
  | createApplication
  | createEndpoint (platformApplicationArn : String)
  | publish (platformApplicationArn endpointArn : String)
  | deleteApplication (platformApplicationArn messageId : String)
  | returned (messageId : String)
  | threw
  deriving DecidableEq, Repr

def DemoNotification.application (n : DemoNotification) : CreatePlatformApplicationRequest :=
  Aws.createPlatformApplication n.applicationName n.platform n.principal n.credential

def DemoNotification.endpoint (n : DemoNotification) (arn : String) :
    Option CreatePlatformEndpointRequest :=
  Aws.createPlatformEndpoint n.platform "CustomData - Useful to store endpoint specific data"
    n.platformToken arn

def DemoNotification.message (n : DemoNotification) (jsonify : Json → Option String)
    (endpointArn : String) : Option PublishRequest :=
  Aws.publish jsonify endpointArn n.platform n.attrsMap n.requestId n.payload

/-- What follows a remote call: the next position, or `threw`. -/
def DemoPc.after {α σ : Type} (next : α → DemoPc) : Option α × σ → DemoPc × σ
  | (some x, s) => (next x, s)
  | (none, s) => (.threw, s)

theorem DemoPc.after_eq {α σ : Type} {next : α → DemoPc} {r : Option α × σ} {q : DemoPc} {s : σ}
    (h : DemoPc.after next r = (q, s)) :
    s = r.2 ∧ ((∃ x, r.1 = some x ∧ q = next x) ∨ r.1 = none ∧ q = .threw) := by
  obtain ⟨x, s'⟩ := r
  cases x with
  | none =>
    cases h
    exact ⟨rfl, .inr ⟨rfl, rfl⟩⟩
  | some x =>
    cases h
    exact ⟨rfl, .inl ⟨x, rfl, rfl⟩⟩

/-- One remote call of `demoNotification`, with the local work before it. -/
def DemoNotification.step {σ : Type} (sns : AmazonSNS σ) (jsonify : Json → Option String)
    (n : DemoNotification) (s : σ) : DemoPc → Option (DemoPc × σ)
  | .createApplication =>
    some (DemoPc.after .createEndpoint (sns.createPlatformApplication n.application s))
  | .createEndpoint arn =>
    match n.endpoint arn with
    | some r => some (DemoPc.after (.publish arn) (sns.createPlatformEndpoint r s))
    | none => some (.threw, s)
  | .publish arn endpointArn =>
    match n.message jsonify endpointArn with
    | some r => some (DemoPc.after (.deleteApplication arn) (sns.publish r s))
    | none => some (.threw, s)
  | .deleteApplication arn messageId =>
    some (DemoPc.after (fun _ => .returned messageId) (sns.deletePlatformApplication arn s))
  | .returned _ => none
  | .threw => none

end Auth8.Aws
