/-
The command that issues an emergency stop from the command line.

It reads its arguments, saves the stop in Redis and publishes it on the control channel, and its
exit code says whether both were done.  How Redis answers and what the clock reads comes with
the call.
-/
import Kaiban.StopIngress

open JsString

namespace Kaiban

/-! ### The arguments -/

/-- `StopAllArgs`, with the issuer that is given `by`. -/
structure StopAllArgs where
  issuer : JsString
  reason : Option JsString
  help : Bool
  deriving DecidableEq

/-- `STOP_ALL_USAGE`. -/
def stopAllUsage : JsString :=
  js "Usage: npm run stop-all -- [--reason <text>] [--by <name>]\n" ++
    js "Kills every running model call, task and workflow sent up to now (emergency STOP ALL).\n" ++
    js "Env: REDIS_URL (default redis://localhost:6379), " ++
    js "CHANNEL_SIGNING_SECRET (signs the message)."

/-- `arg.split(/=(.*)/s, 2)`. -/
def splitFlag (arg : JsString) : JsString × Option JsString :=
  match arg.dropWhile fun u => u ≠ unit '=' with
  | [] => (arg, none)
  | _ :: inline => (arg.takeWhile fun u => u ≠ unit '=', some inline)

/-- The value of a flag is taken over, the last one of each. -/
def StopAllArgs.set (args : StopAllArgs) (flag value : JsString) : StopAllArgs :=
  if flag = js "--reason" then { args with reason := some value } else { args with issuer := value }

/-- The loop of `parseStopAllArgs(argv, env)`. -/
def parseArgs (args : StopAllArgs) : List JsString → Except JsString StopAllArgs
  | [] => .ok args
  | arg :: rest =>
      if arg = js "--help" ∨ arg = js "-h" then parseArgs { args with help := true } rest
      else
        let flag := (splitFlag arg).1
        if flag ≠ js "--reason" ∧ flag ≠ js "--by" then .error (js "Unknown argument: " ++ arg)
        else
          match (splitFlag arg).2, rest with
          | some [], _ | none, [] | none, [] :: _ => .error (flag ++ js " needs a value")
          | some (u :: value), rest => parseArgs (args.set flag (u :: value)) rest
          | none, (u :: value) :: rest => parseArgs (args.set flag (u :: value)) rest

/-- `env["USER"] || "cli"`. -/
def defaultIssuer (user : Option JsString) : JsString :=
  match user with
  | none | some [] => js "cli"
  | some (u :: name) => u :: name

/-- `parseStopAllArgs(argv, env)`. -/
def parseStopAllArgs (user : Option JsString) (argv : List JsString) :
    Except JsString StopAllArgs :=
  parseArgs ⟨defaultIssuer user, none, false⟩ argv

/-! ### A run -/

/-- What a run of the command gets, and what it hears from outside. -/
structure StopAllRun where
  argv : List JsString
  user : Option JsString
  /-- `randomUUID()`. -/
  commandId : JsString
  commandId_size : commandId.length = 36
  now : ℕ
  /-- The reading of the clock in the envelope. -/
  signedAt : ℕ
  /-- Whether the script says it saved the value, `none` when it fails. -/
  saved : Option Bool
  published : Bool
  /-- What the error says when the stop is not issued. -/
  failure : JsString

/-- What a run leaves behind. -/
structure StopAllExit where
  code : ℕ
  out : List JsString
  err : List JsString
  sent : List RedisCall

/-- What `issueStopAll` needs of a run. -/
def StopAllRun.call (r : StopAllRun) : StopCall where
  token := none
  verified := none
  body := none
  clientKey := []
  clock := 0
  commandId := r.commandId
  commandId_size := r.commandId_size
  moment := r.now
  ackAt := 0
  signedAt := r.signedAt
  ackSignedAt := 0
  saved := r.saved
  published := r.published

/-- `warnIfUnsigned(env, err)`. -/
def warnIfUnsigned (sg : Signing) : List JsString :=
  if sg.secret = [] then
    [js "warning: CHANNEL_SIGNING_SECRET is not set; " ++
      js "nodes that sign their channels will ignore this stop."]
  else []

/-- What is printed of a stop that was issued. -/
def issuedText (cmd : NewStopCommand) (saved : Bool) : JsString :=
  Json.stringify (.obj ([(js "commandId", .str cmd.commandId),
    (js "issuedAt", .num (JsNumber.ofInt cmd.issuedAt)), (js "issuedBy", .str cmd.issuedBy)] ++
    reasonMembers cmd.reason ++ [(js "saved", .bool saved)]))

/-- `runStopAll(argv, deps)`. -/
def runStopAll (sg : Signing) (r : StopAllRun) : StopAllExit :=
  match parseStopAllArgs r.user r.argv with
  | .error message => ⟨1, [], [message ++ js "\n" ++ stopAllUsage], []⟩
  | .ok args =>
      if args.help then ⟨0, [stopAllUsage], [], []⟩
      else
        let cmd := createStopAllCommand r.commandId args.issuer args.reason r.now
        match issueStopAll sg r.call cmd with
        | (some saved, sent) => ⟨0, [issuedText cmd saved], warnIfUnsigned sg, sent⟩
        | (none, sent) =>
            ⟨1, [], warnIfUnsigned sg ++ [js "stop-all failed: " ++ r.failure], sent⟩

end Kaiban
