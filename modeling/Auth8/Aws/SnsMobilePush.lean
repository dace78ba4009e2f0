import Auth8.Aws.SnsClientWrapper
import Auth8.Persistent.Device

/-! # The class `SNSMobilePush` -/
namespace Auth8.Aws
open Persistent
set_option autoImplicit false

def addBaiduNotificationAttributes : List (String × MessageAttributeValue) :=
  [("AWS.SNS.MOBILE.BAIDU.DeployStatus", ⟨"String", some "1"⟩),
    ("AWS.SNS.MOBILE.BAIDU.MessageKey", ⟨"String", some "default-channel-msg-key"⟩),
    ("AWS.SNS.MOBILE.BAIDU.MessageType", ⟨"String", some "0"⟩)]

def addWNSNotificationAttributes : List (String × MessageAttributeValue) :=
  [("AWS.SNS.MOBILE.WNS.CachePolicy", ⟨"String", some "cache"⟩),
    ("AWS.SNS.MOBILE.WNS.Type", ⟨"String", some "wns/badge"⟩)]

def addMPNSNotificationAttributes : List (String × MessageAttributeValue) :=
  [("AWS.SNS.MOBILE.MPNS.Type", ⟨"String", some "token"⟩),
    ("AWS.SNS.MOBILE.MPNS.NotificationClass", ⟨"String", some "realtime"⟩)]

def attributesMap : Platform → Attributes
  | .ADM => none
  | .GCM => none
  | .APNS => none
  | .APNS_SANDBOX => none
  | .BAIDU => some addBaiduNotificationAttributes
  | .WNS => some addWNSNotificationAttributes
  | .MPNS => some addMPNSNotificationAttributes

/-- The call of `demoNotification` that `demoAndroidAppNotification` makes, and so `sendMessage`, which
catches what the service throws. The key is one literal in the source; nothing depends on its text. -/
def demoAndroidAppNotification (serverAPIKey : String) (device : Device) (requestId : String)
    (payload : List (String × String)) : DemoNotification where
  platform := .GCM
  principal := ""
  credential := serverAPIKey
  platformToken := device.regid
  applicationName := "Auth8"
  attrsMap := attributesMap
  requestId := requestId
  payload := payload

end Auth8.Aws
