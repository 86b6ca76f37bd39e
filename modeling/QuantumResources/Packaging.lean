/-! Packages that are wanted only for some of the work on a project. -/

namespace QuantumResources.Packaging

def styleTools : List String :=
  ["black~=22.3", "flake8~=3.9.0", "Flake8-pyproject>=0.9.0", "isort~=5.9.0"]

def testTools : List String := ["mypy~=0.910", "pytest~=6.2.5", "pytest-cov>=2.12"]

/-- The optional packages by the name under which they are asked for. -/
def extras : List (String × List String) := [("dev", styleTools ++ testTools)]

end QuantumResources.Packaging
