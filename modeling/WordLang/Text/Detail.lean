/-! Details that may be absent, and the word that then stands for them. -/
namespace WordLang.Text

/-- The word that stands for an absent detail. -/
def absentDetail : String := "None"

def showDetail (d : Option String) : String := d.getD absentDetail

end WordLang.Text
