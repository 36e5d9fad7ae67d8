import ApiLinker.Settings.Store

/-!
Failures: why the work on a document could not start.
-/

namespace ApiLinker

inductive Failure where
  | settings (fault : Settings.StoreFault)
  | file (path : String) (error : SystemError)
  | parse (path : String) (fault : Json.Fault)
deriving DecidableEq, Repr

namespace Failure

def reason : Failure → String
  | .settings fault => fault.message
  | .file _ error => error.message
  | .parse _ fault => fault.message

def message : Failure → String
  | .settings fault => "config error: " ++ fault.message
  | .file path error => "file error: " ++ error.message ++ " (path: " ++ path ++ ")"
  | .parse path fault => "parse error: " ++ fault.message ++ " (path: " ++ path ++ ")"

end Failure

end ApiLinker
