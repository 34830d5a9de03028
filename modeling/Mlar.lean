import Mlar.Path.Components
import Mlar.Path.Sanitize
import Mlar.Fs.Basic
import Mlar.Fs.Calls
import Mlar.Fs.Resolve
import Mlar.Fs.Plain
import Mlar.Archive.Reader
import Mlar.Os
import Mlar.Archive.Calls
import Mlar.Commands.Extract
import Mlar.Commands.Convert
import Mlar.Commands.Cat
import Mlar.Commands.List
import Mlar.Commands.Create
import Mlar.Commands.Config
import Mlar.Extract.CreateFile
import Mlar.Extract.Effect
import Mlar.Extract.Command
import Mlar.Extract.Frame
import Mlar.Extract.Failures
import Mlar.Extract.Content
import Mlar.Extract.Report
import Mlar.Extract.Idempotence
import Mlar.Extract.RoundTrip
import Mlar.Commands.ToTar
