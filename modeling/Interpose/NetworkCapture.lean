import Interpose.Weaving

/-!
The rules that capture network traffic.

Sending and disposing of a web request and making an HTTP client go to wrappers that log. On the
platforms where the system records web requests itself the rules for them are left out, unless data
processing errors are to be captured as well.
-/

namespace Interpose

inductive Platform where
  | android
  | ios
  | tvos
  | standalone
  deriving DecidableEq, Repr

structure CaptureOptions where
  platform : Platform
  /-- Capture web requests on every platform, for their data processing errors. -/
  captureProcessingErrors : Bool
  deriving DecidableEq, Repr

namespace CaptureOptions

def default : CaptureOptions := ⟨.android, false⟩

def capturesWebRequests (o : CaptureOptions) : Bool :=
  (o.platform != .ios && o.platform != .tvos) || o.captureProcessingErrors

end CaptureOptions

namespace NetworkCapture

/-! ### Types that the rules are about -/

def captureType : String := "EmbraceSDK.Networking.NetworkCapture"
def webRequest : String := "UnityEngine.Networking.UnityWebRequest"
def webRequestOperation : String := "UnityEngine.Networking.UnityWebRequestAsyncOperation"
def httpClient : String := "System.Net.Http.HttpClient"
def httpInvoker : String := "System.Net.Http.HttpMessageInvoker"
def httpHandler : String := "System.Net.Http.HttpMessageHandler"
def disposable : String := "System.IDisposable"
def objectType : String := "System.Object"
def booleanType : String := "System.Boolean"

/-- The declarations of these types that the rules rely on. -/
def seed (h : Hierarchy) : Hierarchy :=
  ((h.declare webRequest (some objectType) [disposable]).declare
    httpInvoker (some objectType) [disposable]).declare httpClient (some httpInvoker) []

/-! ### Rules -/

/-- A rule that sends calls under a condition to a static wrapper. -/
def directRule (name : String) (replacement : MethodRef) (condition : Condition) : Rule :=
  ⟨name, replacement, some .direct, fun s => condition.holds s⟩

def sendMethod : MethodRef := .instanceOf webRequest "SendWebRequest" [] webRequestOperation

def sendWrapper : MethodRef := .static captureType "SendWebRequest" [webRequest] webRequestOperation

def sendCondition : Condition := .callee sendMethod.fullName

def disposeMethod : MethodRef := .instanceOf webRequest "Dispose" [] voidType

/-- The method that a using block and a polymorphic reference call. -/
def interfaceDisposeMethod : MethodRef := .instanceOf disposable "Dispose" [] voidType

def disposeWrapper : MethodRef := .static captureType "DisposeWebRequest" [disposable] voidType

/-- Through the interface, only a receiver that may be a web request counts. -/
def disposeCondition : Condition :=
  .any [.callee disposeMethod.fullName,
    .all [.callee interfaceDisposeMethod.fullName, .receiver webRequest]]

def clientConstructor (params : List String) : MethodRef := .constructor httpClient params

def clientWrapper (params : List String) : MethodRef :=
  .static captureType "GetHttpClientWithLoggingHandler" params httpClient

/-- The constructors of the client, by the names of their rules. -/
def clientOverloads : List (String × List String) :=
  [("http-client", []), ("http-client-with-handler", [httpHandler]),
    ("http-client-with-handler-and-dispose", [httpHandler, booleanType])]

def webRequestRules : List Rule :=
  [directRule "send-web-request" sendWrapper sendCondition,
    directRule "dispose-web-request" disposeWrapper disposeCondition]

def clientRules : List Rule :=
  clientOverloads.map fun o =>
    directRule o.1 (clientWrapper o.2) (.callee (clientConstructor o.2).fullName)

/-- The rules under given options. -/
def rules (o : CaptureOptions) : List Rule :=
  (if o.capturesWebRequests then webRequestRules else []) ++ clientRules

end NetworkCapture

end Interpose
