import UefiNexus.Lib.Prog
import UefiNexus.Lib.ByteMem
import UefiNexus.Lib.Span
import UefiNexus.Lib.Align
import UefiNexus.Lib.Search
import UefiNexus.Lib.Grid
import UefiNexus.Lib.CString
import UefiNexus.Lib.Checked
import UefiNexus.Lib.Pager
import UefiNexus.Lib.Input
import UefiNexus.Lib.Pool
import UefiNexus.Lib.Refine
import UefiNexus.Base
import UefiNexus.Core.AddressMap
import UefiNexus.Core.Cursor
import UefiNexus.Core.Format
import UefiNexus.NexusMemLib.MemMap
import UefiNexus.NexusMemLib.MemAccess
import UefiNexus.NexusMemLib.Pool
import UefiNexus.NexusMemLib.Layout
import UefiNexus.NexusMemLib.PageNavigation
import UefiNexus.Adapter.Interface
import UefiNexus.PageMem.View
import UefiNexus.PageMem.Actions
import UefiNexus.PageMem.Controller
import UefiNexus.Uefi.World
import UefiNexus.Uefi.TextInput
import UefiNexus.Uefi.Bridge
import UefiNexus.Uefi.Adapters
import UefiNexus.NexusMemLib.Firmware
import UefiNexus.Application.PageMenu
import UefiNexus.Application.App
import UefiNexus.Proof.Access
import UefiNexus.Proof.AccessPolicy
import UefiNexus.Proof.AccessParts
import UefiNexus.Proof.InitMemoryMap
import UefiNexus.Proof.PageSearch
import UefiNexus.Proof.PageExact
import UefiNexus.Proof.Navigation
import UefiNexus.Proof.Calls
import UefiNexus.Proof.Outcomes
import UefiNexus.Proof.Keys
import UefiNexus.Proof.Machine
import UefiNexus.Proof.MapCopy
import UefiNexus.Proof.Prompt
import UefiNexus.Proof.Writes
import UefiNexus.Proof.Noninterference
import UefiNexus.Proof.Cells
import UefiNexus.Proof.Cursor
import UefiNexus.Proof.Terminal
import UefiNexus.Proof.Texts
import UefiNexus.Proof.Drawing
import UefiNexus.Proof.Picture
import UefiNexus.Proof.Redraw
import UefiNexus.Proof.Console
import UefiNexus.Proof.Metadata
import UefiNexus.Proof.Reports
import UefiNexus.Proof.Area
import UefiNexus.Proof.FailedInit
import UefiNexus.Proof.Codec
import UefiNexus.Proof.Labels
import UefiNexus.Proof.Literal
import UefiNexus.Proof.TypeNames
import UefiNexus.Proof.Lines
import UefiNexus.Proof.Bytes
import UefiNexus.Proof.Browsable
import UefiNexus.Proof.PageNavigation
import UefiNexus.Proof.FirstAddress
import UefiNexus.Proof.LineEditor
import UefiNexus.Proof.Pool
import UefiNexus.Proof.TextInput
import UefiNexus.Proof.Ranges
import UefiNexus.Proof.Leaving
import UefiNexus.Proof.Menu
import UefiNexus.Proof.Application
import UefiNexus.Proof.Openings
import UefiNexus.Proof.Session
import UefiNexus.Proof.Secrecy
import UefiNexus.Abstract.Viewer
import UefiNexus.Abstract.Tool
import UefiNexus.Proof.Viewer
import UefiNexus.Proof.Highlight
import UefiNexus.Proof.Screen
import UefiNexus.Proof.Reachable
import UefiNexus.Proof.PageWalk
import UefiNexus.Proof.Typing
import UefiNexus.Proof.Opened
import UefiNexus.Proof.Tool
