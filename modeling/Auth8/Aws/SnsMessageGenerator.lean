/-! # The class `SNSMessageGenerator`

The platforms and the messages composed for them. The JSON text of a map is the library's business:
`jsonify` is a parameter, with no result where it throws. -/
namespace Auth8.Aws
set_option autoImplicit false

inductive Platform where
  | APNS
  | APNS_SANDBOX
  | ADM
  | GCM
  | BAIDU
  | WNS
  | MPNS
  deriving DecidableEq, Repr

def Platform.name : Platform → String
  | .APNS => "APNS"
  | .APNS_SANDBOX => "APNS_SANDBOX"
  | .ADM => "ADM"
  | .GCM => "GCM"
  | .BAIDU => "BAIDU"
  | .WNS => "WNS"
  | .MPNS => "MPNS"

/-- The objects the messages are built of. -/
inductive Json where
  | bool (b : Bool)
  | int (n : Int)
  | str (s : String)
  | map (entries : List (String × Json))

/-- A string literal; only quotes and backslashes are escaped. -/
def quote (s : String) : String :=
  "\"" ++ String.join (s.toList.map fun c =>
    if c = '"' then "\\\"" else if c = '\\' then "\\\\" else c.toString) ++ "\""

mutual

/-- A compact text of a map, in the order of its entries. -/
def Json.text : Json → String
  | .bool b => toString b
  | .int n => toString n
  | .str s => quote s
  | .map entries => "\x7b" ++ ",".intercalate (textEntries entries) ++ "\x7d"

def textEntries : List (String × Json) → List String
  | [] => []
  | (k, v) :: entries => (quote k ++ ":" ++ v.text) :: textEntries entries

end

def Json.ofMap (m : List (String × String)) : Json := .map (m.map fun e => (e.1, .str e.2))

section
variable (jsonify : Json → Option String)

def getData : List (String × String) := [("message", "Hello World!")]

def getSampleAppleMessage : Option String :=
  jsonify (.map [("aps", .map [("alert", .str "You have got email."), ("badge", .int 9),
    ("sound", .str "default")])])

def getSampleKindleMessage : Option String :=
  jsonify (.map [("data", .ofMap getData), ("consolidationKey", .str "Welcome"),
    ("expiresAfter", .int 1000)])

def getSampleBaiduMessage : Option String :=
  jsonify (.map [("title", .str "New Notification Received from SNS"),
    ("description", .str "Hello World!")])

end

def getSampleWNSMessage : String := "<badge version=\"" ++ "1" ++ "\" value=\"" ++ "23" ++ "\"/>"

def getSampleMPNSMessage : String :=
  "<?xml version=\"1.0\" encoding=\"utf-8\"?><wp:Notification xmlns:wp=\"WPNotification\"><wp:Tile>" ++
    "<wp:Count>" ++ "23" ++ "</wp:Count><wp:Title>" ++ "This is a tile notification" ++
    "</wp:Title></wp:Tile></wp:Notification>"

end Auth8.Aws
