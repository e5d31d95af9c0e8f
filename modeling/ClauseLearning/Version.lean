/-!
# Versions

* `version` : the version of the library and of its program;
* `apiVersion` : a number that grows when callers have to change.
-/

namespace ClauseLearning

def version : String := "0.1.0"

def apiVersion : Nat := 1

end ClauseLearning
